import ClientForge.Ident.Method
import ClientForge.Plan.Declaration

/-!
Methods of clients and the types of their outcomes.
-/

namespace ClientForge.Plan

open Api Ident

/-- Method names that every client has already. -/
def reservedMethods : List String := ["new", "config"]

/-- Names that the body of every method uses. -/
def reservedLocals : List String := ["self", "body", "url", "request", "response"]

/-- The type of a value that need not be there. -/
def presence (required : Bool) (type : TypeRef) : TypeRef := if required then type else type.orAbsent

def params (typeName : String → String) (parameters : List Parameter) : List Param :=
  let idents := (Scope.snake.reserveAll reservedLocals).allocateAll
    (parameters.map fun parameter => snakeIdent parameter.name)
  (parameters.zip idents).map fun (parameter, ident) =>
    { ident
      wireName := parameter.name
      location := parameter.location
      type := presence parameter.required
        ((TypeRef.ofSchema parameter.name parameter.schema).rename typeName)
      description := parameter.description }

def body (typeName : String → String) (body : RequestBody) : Body :=
  { ident := "body"
    type := presence body.required ((TypeRef.ofSchema "body" body.schema).rename typeName)
    contentType := body.contentType }

/-- The outcomes of a method; of those with the same name the first counts. -/
def variants (typeName : String → String) (method : String) (successes : Nat) :
    List String → List (Status × Response) → List Variant
  | _, [] => []
  | seen, (status, response) :: rest =>
    let name := status.variantName successes
    if seen.contains name then variants typeName method successes seen rest
    else
      { name
        status
        body := response.schema.map fun schema => (TypeRef.ofSchema method schema).rename typeName
        description := response.description } ::
          variants typeName method successes (name :: seen) rest

def family (typeName : String → String) (operation : Operation) (method familyType : String) :
    Family :=
  let successes := operation.responses.keys.countP Status.isExactSuccess
  { typeName := familyType
    variants := variants typeName method successes [] operation.responses.entries
    unknownFailure := Status.unknownFailure }

def method (typeName : String → String) (operation : Operation) (name familyType : String) :
    Method :=
  { name
    httpMethod := operation.method
    path := operation.path
    summary := operation.summary
    description := operation.description
    deprecated := operation.deprecated
    params := params typeName operation.parameters
    body := operation.requestBody.map (body typeName)
    result := family typeName operation name familyType }

def methods (typeName : String → String) (clientType : String) (operations : List Operation) :
    List Method :=
  let names := methodNames (operations.map Operation.toEndpoint) reservedMethods
  let families := (Scope.pascal.reserveAll [clientType, "ClientConfig"]).allocateAll
    (names.map familyName)
  (operations.zip (names.zip families)).map fun (operation, name, familyType) =>
    method typeName operation name familyType

end ClientForge.Plan
