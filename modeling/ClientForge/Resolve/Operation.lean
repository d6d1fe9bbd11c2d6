import ClientForge.Api.Model
import ClientForge.Ident.Method
import ClientForge.Resolve.Schema

/-!
Resolving an operation: its parameters together with those of its path, its body and its responses.
-/

namespace ClientForge.Resolve

open Document

/-- How many references may lead from one component to the next. -/
def maxChain : Nat := 16

/-- Follows references among the components of one part to what they end at; `steps` bounds how
many things are looked at. -/
def chase (part : String) (table : Table String (RefOr α)) : Nat → RefOr α → Except ReferenceFault α
  | 0, _ => .error (.tooDeep part)
  | _ + 1, .inline item => .ok item
  | steps + 1, .ref target =>
    match componentName? target.location part with
    | none => .error (.external target.location)
    | some name =>
      match table.get? name with
      | none => .error (.undefined part name)
      | some next => chase part table steps next

/-- The representation of a payload that a client uses: JSON, else a kind of JSON, else the first. -/
def selectMedia (content : Table String MediaType) : Option (String × MediaType) :=
  match content.get? "application/json" with
  | some media => some ("application/json", media)
  | none =>
    match content.entries.find? fun (type, _) => "+json".toList.isSuffixOf type.toList with
    | some found => some found
    | none => content.entries.head?

/-- The parameters of a path and of an operation at it. Of those with the same name and location the
last one counts, in the place of the first. -/
def mergeParameters (parameters : List Document.Parameter) :
    Table (String × String) Document.Parameter :=
  Table.ofList (parameters.map fun parameter => ((parameter.name, parameter.location), parameter))

/-- The names that qualify what stands inline in an operation. -/
structure OperationOwners where
  byId : String
  byPath : String

def OperationOwners.of (endpoint : Api.Endpoint) : OperationOwners :=
  ⟨Ident.typeIdent (Ident.stem endpoint),
    Ident.typeIdent (Ident.operationStem none endpoint.method endpoint.path)⟩

/-- Resolves a parameter; one in a location that is not supported is left out. -/
def resolveParameter (components : Components) (owners : OperationOwners)
    (parameter : Document.Parameter) : Resolving (Option Api.Parameter) := do
  match Api.ParamLocation.ofKeyword? parameter.location with
  | none => return none
  | some location =>
    let schema ← match parameter.schema with
      | some node =>
        resolveOwned components.schemas node parameter.name ["", owners.byId, owners.byPath]
      | none => pure .unknown
    return some
      { name := parameter.name
        location
        schema
        required := parameter.required || location = .path
        description := parameter.description }

def resolveParameters (components : Components) (owners : OperationOwners) :
    List Document.Parameter → Resolving (List Api.Parameter)
  | [] => return []
  | parameter :: rest => do
    let resolved ← resolveParameter components owners parameter
    let others ← resolveParameters components owners rest
    return resolved.toList ++ others

/-- Resolves the body of a request; one without any representation is none. -/
def resolveBody (components : Components) (owners : OperationOwners)
    (body : Document.RequestBody) : Resolving (Option Api.RequestBody) := do
  match selectMedia body.content with
  | none => return none
  | some (contentType, media) =>
    let schema ← match media.schema with
      | some node =>
        resolveOwned components.schemas node "RequestBody" [owners.byId, owners.byPath]
      | none => pure .unknown
    return some { schema, required := body.required, contentType }

def resolveResponse (components : Components) (owners : OperationOwners) (status : Api.Status)
    (response : Document.Response) : Resolving Api.Response := do
  match (selectMedia response.content).bind (·.2.schema) with
  | none => return ⟨none, response.description⟩
  | some node =>
    let context := Text.capitalize status.label ++ "Body"
    let schema ← resolveOwned components.schemas node context [owners.byId, owners.byPath]
    return ⟨some schema, response.description⟩

/-- Resolves responses into a table by status; a key that is no status is left out. -/
def resolveResponses (components : Components) (owners : OperationOwners) :
    Table Api.Status Api.Response → List (String × RefOr Document.Response) →
      Resolving (Table Api.Status Api.Response)
  | done, [] => return done
  | done, (key, item) :: rest => do
    match Api.Status.parse key with
    | none => resolveResponses components owners done rest
    | some status =>
      let response ← MonadExcept.ofExcept (chase "responses" components.responses maxChain item)
      let resolved ← resolveResponse components owners status response
      resolveResponses components owners (done.insert status resolved) rest

def resolveOperation (components : Components) (shared : List (RefOr Document.Parameter))
    (path : String) (method : Api.HttpMethod) (operation : Document.Operation) :
    Resolving Api.Operation := do
  let endpoint : Api.Endpoint := ⟨path, method, operation.operationId⟩
  let owners := OperationOwners.of endpoint
  let declared ← MonadExcept.ofExcept <| (shared ++ operation.parameters).mapM
    (chase "parameters" components.parameters maxChain)
  let parameters ← resolveParameters components owners (mergeParameters declared).values
  let requestBody ← match operation.requestBody with
    | none => pure none
    | some item => do
      let body ← MonadExcept.ofExcept
        (chase "requestBodies" components.requestBodies maxChain item)
      resolveBody components owners body
  let responses ← resolveResponses components owners Table.empty operation.responses.entries
  return {
    toEndpoint := endpoint
    summary := operation.summary
    description := operation.description
    tags := distinct operation.tags
    deprecated := operation.deprecated
    parameters
    requestBody
    responses }

end ClientForge.Resolve
