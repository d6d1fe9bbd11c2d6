import ClientForge.Resolve.Operation

/-!
Resolving a document into the model of its API.
-/

namespace ClientForge.Resolve

open Document

/-- The operations of a document: paths in its order, at each path in the order of the methods. -/
def operationsOf (document : Document) :
    List (List (RefOr Document.Parameter) × String × Api.HttpMethod × Document.Operation) :=
  document.paths.entries.flatMap fun (path, item) =>
    item.operations.map fun (method, operation) => (item.parameters, path, method, operation)

def resolveOperations (components : Components) :
    List (List (RefOr Document.Parameter) × String × Api.HttpMethod × Document.Operation) →
      Resolving (List Api.Operation)
  | [] => return []
  | (shared, path, method, operation) :: rest => do
    let resolved ← resolveOperation components shared path method operation
    let others ← resolveOperations components rest
    return resolved :: others

/-- The tags under which an operation stands: its own, or the empty one. -/
def tagsOf (operation : Api.Operation) : List String :=
  if operation.tags.isEmpty then [""] else operation.tags

def addUnder (operation : Api.Operation) (groups : Table String (List Api.Operation))
    (tag : String) : Table String (List Api.Operation) :=
  groups.insert tag ((groups.get? tag).getD [] ++ [operation])

/-- The operations by tag, tags in the order of their first use. -/
def groupByTag (operations : List Api.Operation) : Table String (List Api.Operation) :=
  operations.foldl (fun groups operation => (tagsOf operation).foldl (addUnder operation) groups)
    Table.empty

def standardServerUrl : String := "http://localhost:8080/"

/-- The URL of the first server, its variables replaced by their defaults one after the other. -/
def serverUrl : List Server → String
  | [] => standardServerUrl
  | server :: _ =>
    server.defaults.entries.foldl
      (fun url (name, default) => Text.replace ("\x7b" ++ name ++ "\x7d") default url) server.url

/-- The API key of a security scheme; schemes of other kinds, in other places or without a name of
the key are none. -/
def keyScheme? (name : String) (scheme : SecurityScheme) : Option Api.KeyScheme :=
  if scheme.kind ≠ "apiKey" then none
  else
    match scheme.location, scheme.name with
    | some "header", some keyName => some ⟨name, .header, keyName⟩
    | some "query", some keyName => some ⟨name, .query, keyName⟩
    | _, _ => none

def keySchemes (components : Components) : Except ReferenceFault (List Api.KeyScheme) := do
  let found ← components.securitySchemes.entries.mapM
    fun (entry : String × RefOr SecurityScheme) => do
      let scheme ← chase "securitySchemes" components.securitySchemes maxChain entry.2
      return keyScheme? entry.1 scheme
  return found.filterMap id

def model (document : Document) : Except ReferenceFault Api.Model := do
  let components := document.components.getD Components.none
  let (operations, registry) :=
    (resolveOperations components (operationsOf document)).run.run Registry.empty
  let operations ← operations
  let keySchemes ← keySchemes components
  return {
    serverUrl := serverUrl document.servers
    groups := groupByTag operations
    schemas := registry.schemas
    keySchemes }

end ClientForge.Resolve
