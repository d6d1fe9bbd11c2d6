import ClientForge.Api.Endpoint
import ClientForge.Ident.Basic
import ClientForge.Ident.Scope
import ClientForge.Text.Split

/-!
Names of client methods. An operation is named by its id, or else by its HTTP method and the fixed
segments of its path. Operations that share such a stem are told apart by the segments that not all
of them have, then by the HTTP method, and last by a number.
-/

namespace ClientForge.Ident

open Api

def isParameterSegment (segment : String) : Bool :=
  segment.toList.head? == some '\x7b' && segment.toList.getLast? == some '\x7d'

/-- The segments of a path template that are neither empty nor parameters. -/
def pathSegments (path : String) : List String :=
  (Text.splitAt '/' path).filter fun segment => segment ≠ "" && !isParameterSegment segment

/-- The name of an operation before operations are told apart. -/
def operationStem (operationId : Option String) (method : HttpMethod) (path : String) : String :=
  match operationId.filter (!Text.isAllBlank ·) with
  | some id => snakeIdent id
  | none => snakeIdent ("_".intercalate (method.key :: pathSegments path))

def stem (endpoint : Endpoint) : String :=
  operationStem endpoint.operationId endpoint.method endpoint.path

/-- The segments of an endpoint's path that some endpoint of the group lacks. -/
def distinguishing (group : List Endpoint) (endpoint : Endpoint) : List String :=
  (pathSegments endpoint.path).filter fun segment =>
    !group.all fun other => (pathSegments other.path).contains segment

/-- What an endpoint wishes to be called beside the others of its stem. -/
def qualify (group : List Endpoint) (endpoint : Endpoint) : String :=
  if group.length < 2 then stem endpoint
  else
    let segments := distinguishing group endpoint
    if segments ≠ [] then snakeIdent (stem endpoint ++ "_" ++ "_".intercalate segments)
    else if group.all (·.method = endpoint.method) then stem endpoint
    else snakeIdent (stem endpoint ++ "_" ++ endpoint.method.token)

def groupOf (endpoints : List Endpoint) (name : String) : List Endpoint :=
  endpoints.filter (stem · = name)

/-- Whether an endpoint keeps its stem: no other one has it, and it is not reserved. -/
def keepsStem (endpoints : List Endpoint) (reserved : List String) (endpoint : Endpoint) : Bool :=
  (groupOf endpoints (stem endpoint)).length = 1 && !reserved.contains (stem endpoint)

/-- Names the endpoints that do not keep their stems, in a scope that holds all kept stems. -/
def nameRest (all : List Endpoint) (reserved : List String) : Scope → List Endpoint → List String
  | _, [] => []
  | scope, endpoint :: rest =>
    if keepsStem all reserved endpoint then stem endpoint :: nameRest all reserved scope rest
    else
      let (name, scope) := scope.allocate (qualify (groupOf all (stem endpoint)) endpoint)
      name :: nameRest all reserved scope rest

/-- The method names of the operations of one client, none of them reserved. -/
def methodNames (endpoints : List Endpoint) (reserved : List String) : List String :=
  let kept := (endpoints.filter (keepsStem endpoints reserved)).map stem
  nameRest endpoints reserved ((Scope.snake.reserveAll reserved).reserveAll kept) endpoints

@[simp]
theorem length_methodNames (endpoints : List Endpoint) (reserved : List String) :
    (methodNames endpoints reserved).length = endpoints.length := by
  suffices named : ∀ scope rest, (nameRest endpoints reserved scope rest).length = rest.length from
    named _ _
  intro scope rest
  induction rest generalizing scope with
  | nil => rfl
  | cons endpoint rest ih =>
    rw [nameRest]
    split <;> simp [ih]

def familyName (method : String) : String := typeIdent method ++ "Response"

/-- The module for operations without tags. -/
def untaggedModule : String := "default"

def moduleIdent (tag : String) : String :=
  if Text.isAllBlank tag then untaggedModule else snakeIdent tag

def clientTypeName (tag : String) : String :=
  if Text.isAllBlank tag then "DefaultClient" else typeIdent tag ++ "Client"

end ClientForge.Ident
