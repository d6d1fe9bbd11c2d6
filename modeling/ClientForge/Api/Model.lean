import ClientForge.Api.Endpoint
import ClientForge.Api.Schema
import ClientForge.Api.Status
import ClientForge.Table

/-!
The model of an API: its operations by tag, the named schemas that they use, and its API keys.
-/

namespace ClientForge.Api

inductive ParamLocation where
  | path
  | query
  | header
  deriving DecidableEq, Repr

/-- Reads the location of a parameter; other locations are not supported. -/
def ParamLocation.ofKeyword? : String → Option ParamLocation
  | "path" => some .path
  | "query" => some .query
  | "header" => some .header
  | _ => none

structure Parameter where
  name : String
  location : ParamLocation
  schema : Schema
  required : Bool
  description : Option String
  deriving Repr

structure RequestBody where
  schema : Schema
  required : Bool
  contentType : String
  deriving Repr

/-- A documented response; without a schema it has no body. -/
structure Response where
  schema : Option Schema
  description : Option String
  deriving Repr

structure Operation extends Endpoint where
  summary : Option String
  description : Option String
  tags : List String
  deprecated : Bool
  parameters : List Parameter
  requestBody : Option RequestBody
  responses : Table Status Response

inductive KeyLocation where
  | header
  | query
  deriving DecidableEq, Repr

/-- An API key: the name of its scheme, and the header or query parameter that carries it. -/
structure KeyScheme where
  name : String
  location : KeyLocation
  keyName : String
  deriving DecidableEq, Repr

/-- An API. Operations without tags stand under the empty tag. -/
structure Model where
  serverUrl : String
  groups : Table String (List Operation)
  schemas : Table String Schema
  keySchemes : List KeyScheme

namespace Operation

/-- The schemas that an operation uses, in the order parameters, body, responses. -/
def schemas (operation : Operation) : List Schema :=
  operation.parameters.map (·.schema) ++ (operation.requestBody.map (·.schema)).toList ++
    operation.responses.values.filterMap (·.schema)

def references (operation : Operation) : List String :=
  operation.schemas.flatMap Schema.references

end Operation

end ClientForge.Api
