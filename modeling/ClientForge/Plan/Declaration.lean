import ClientForge.Api.Model
import ClientForge.Settings
import ClientForge.TypeRef

/-!
What the generated source declares. Identifiers are final, and the names in types are identifiers of
models.
-/

namespace ClientForge.Plan

open Api

/-- A field of a struct. A boxed field stores its model behind a pointer. -/
structure Field where
  ident : String
  wireName : String
  type : TypeRef
  boxed : Bool
  description : Option String
  deriving DecidableEq, Repr

structure Member where
  ident : String
  literal : String
  deriving DecidableEq, Repr

inductive ModelKind where
  | struct (fields : List Field)
  | enumeration (members : List Member) (fallback : Option String)
  | alias (type : TypeRef)
  | newtype (type : TypeRef)
  deriving DecidableEq, Repr

structure ModelDecl where
  schemaName : String
  typeName : String
  fileStem : String
  kind : ModelKind
  deriving DecidableEq, Repr

namespace ModelDecl

/-- The identifiers of an enumeration's members, the fallback last. -/
def members (model : ModelDecl) : List String :=
  match model.kind with
  | .enumeration members fallback => members.map (·.ident) ++ fallback.toList
  | _ => []

/-- The member of an enumeration that stands for unknown literals. -/
def defaultMember (model : ModelDecl) : Option String :=
  match model.kind with
  | .enumeration _ fallback => fallback
  | _ => none

end ModelDecl

structure Param where
  ident : String
  wireName : String
  location : ParamLocation
  type : TypeRef
  description : Option String
  deriving DecidableEq, Repr

structure Body where
  ident : String
  type : TypeRef
  contentType : String
  deriving DecidableEq, Repr

structure Variant where
  name : String
  status : Status
  body : Option TypeRef
  description : Option String
  deriving DecidableEq, Repr

structure Family where
  typeName : String
  variants : List Variant
  unknownFailure : String
  deriving DecidableEq, Repr

/-- The names of all variants, the one for undocumented outcomes last. -/
def Family.variantNames (family : Family) : List String :=
  family.variants.map (·.name) ++ [family.unknownFailure]

structure Method where
  name : String
  httpMethod : HttpMethod
  path : String
  summary : Option String
  description : Option String
  deprecated : Bool
  params : List Param
  body : Option Body
  result : Family
  deriving DecidableEq, Repr

structure Client where
  tag : String
  moduleName : String
  typeName : String
  methods : List Method
  deriving DecidableEq, Repr

structure Key where
  ident : String
  schemeName : String
  location : KeyLocation
  keyName : String
  deriving DecidableEq, Repr

end Plan

/-- Everything that a run generates. -/
structure Plan where
  package : List String
  baseUrl : String
  keys : List Plan.Key
  clients : List Plan.Client
  models : List Plan.ModelDecl
  settings : Settings
  deriving DecidableEq, Repr

namespace Plan

def model? (plan : Plan) (typeName : String) : Option ModelDecl :=
  plan.models.find? (·.typeName = typeName)

def client? (plan : Plan) (tag : String) : Option Client :=
  plan.clients.find? (·.tag = tag)

end Plan

end ClientForge
