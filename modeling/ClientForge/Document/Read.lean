import ClientForge.Document.Record
import ClientForge.Document.Schema
import ClientForge.Failure
import ClientForge.Yaml.Load

/-!
Reading a document: from its data, and from its text, which is YAML or JSON. Only documents of
version 3 are read.
-/

namespace ClientForge.Document

namespace Reader

def node : Reader SchemaNode := fun value =>
  match SchemaNode.ofValue? value with
  | some node => .ok node
  | none => .error .noAlternative

/-- What `item` reads, or a reference to it. Whatever the fault, it is that neither is there. -/
def refOr (item : Reader α) : Reader (RefOr α) := fun value =>
  match Reference.ofValue? value with
  | some target => .ok (.ref target)
  | none =>
    match item value with
    | .ok a => .ok (.inline a)
    | .error _ => .error .noAlternative

end Reader

open Reader

namespace Server

def readVariable : Reader String := fun value => do
  let layout : Layout := ⟨"ShimServerVariable", [⟨"default", false⟩]⟩
  let default ← layout.read (fun (default : Option String) key value =>
    match key with
    | "default" => (text value).map some
    | _ => .ok default) none value
  due "default" default

def read : Reader Server := fun value => do
  let layout : Layout := ⟨"ShimServer", [⟨"url", false⟩, ⟨"variables", true⟩]⟩
  let (url, defaults) ← layout.read (fun (server : Option String × Table String String) key value =>
    match key with
    | "url" => (text value).map fun url => (some url, server.2)
    | "variables" => (tableOf readVariable value).map fun defaults => (server.1, defaults)
    | _ => .ok server) (none, Table.empty) value
  return ⟨← due "url" url, defaults⟩

end Server

namespace MediaType

def read : Reader MediaType :=
  Layout.read ⟨"ShimMediaType", [⟨"schema", false⟩]⟩ (fun media key value =>
    match key with
    | "schema" => (orNull node value).map fun schema => { schema }
    | _ => .ok media) ⟨none⟩

end MediaType

namespace RequestBody

def read : Reader RequestBody :=
  Layout.read ⟨"ShimRequestBody", [⟨"content", true⟩, ⟨"required", true⟩, ⟨"description", false⟩]⟩
    (fun body key value =>
      match key with
      | "content" => (tableOf MediaType.read value).map fun content => { body with content }
      | "required" => (flag value).map fun required => { body with required }
      | "description" => (orNull text value).map fun description => { body with description }
      | _ => .ok body) ⟨Table.empty, false, none⟩

end RequestBody

namespace Response

def read : Reader Response :=
  Layout.read ⟨"ShimResponse", [⟨"description", false⟩, ⟨"content", true⟩]⟩
    (fun response key value =>
      match key with
      | "description" =>
        (orNull text value).map fun description => { response with description }
      | "content" => (tableOf MediaType.read value).map fun content => { response with content }
      | _ => .ok response) ⟨none, Table.empty⟩

end Response

namespace Parameter

def read : Reader Parameter := fun value => do
  let layout : Layout := ⟨"ShimParameter",
    [⟨"name", false⟩, ⟨"in", false⟩, ⟨"required", true⟩, ⟨"schema", false⟩, ⟨"description", false⟩]⟩
  let (name, location, parameter) ← layout.read
    (fun (draft : Option String × Option String × Parameter) key value =>
      match key with
      | "name" => (text value).map fun name => (some name, draft.2.1, draft.2.2)
      | "in" => (text value).map fun location => (draft.1, some location, draft.2.2)
      | "required" =>
        (flag value).map fun required => (draft.1, draft.2.1, { draft.2.2 with required })
      | "schema" =>
        (orNull node value).map fun schema => (draft.1, draft.2.1, { draft.2.2 with schema })
      | "description" =>
        (orNull text value).map fun description =>
          (draft.1, draft.2.1, { draft.2.2 with description })
      | _ => .ok draft) (none, none, ⟨"", "", false, none, none⟩) value
  return { parameter with name := ← due "name" name, location := ← due "in" location }

end Parameter

namespace SecurityScheme

def read : Reader SecurityScheme := fun value => do
  let layout : Layout := ⟨"ShimSecurityScheme",
    [⟨"type", false⟩, ⟨"name", false⟩, ⟨"in", false⟩, ⟨"scheme", false⟩]⟩
  let (kind, scheme) ← layout.read (fun (draft : Option String × SecurityScheme) key value =>
    match key with
    | "type" => (text value).map fun kind => (some kind, draft.2)
    | "name" => (orNull text value).map fun name => (draft.1, { draft.2 with name })
    | "in" => (orNull text value).map fun location => (draft.1, { draft.2 with location })
    | "scheme" => (orNull text value).map fun scheme => (draft.1, { draft.2 with scheme })
    | _ => .ok draft) (none, ⟨"", none, none, none⟩) value
  return { scheme with kind := ← due "type" kind }

end SecurityScheme

namespace Operation

def read : Reader Operation :=
  Layout.read ⟨"ShimOperation",
    [⟨"operationId", false⟩, ⟨"summary", false⟩, ⟨"description", false⟩, ⟨"tags", true⟩,
      ⟨"parameters", true⟩, ⟨"requestBody", false⟩, ⟨"responses", true⟩, ⟨"deprecated", true⟩]⟩
    (fun operation key value =>
      match key with
      | "operationId" =>
        (orNull text value).map fun operationId => { operation with operationId }
      | "summary" => (orNull text value).map fun summary => { operation with summary }
      | "description" =>
        (orNull text value).map fun description => { operation with description }
      | "tags" => (listOf text value).map fun tags => { operation with tags }
      | "parameters" =>
        (listOf (refOr Parameter.read) value).map fun parameters => { operation with parameters }
      | "requestBody" =>
        (orNull (refOr RequestBody.read) value).map fun requestBody =>
          { operation with requestBody }
      | "responses" =>
        (tableOf (refOr Response.read) value).map fun responses => { operation with responses }
      | "deprecated" => (flag value).map fun deprecated => { operation with deprecated }
      | _ => .ok operation)
    ⟨none, none, none, [], [], none, Table.empty, false⟩

end Operation

namespace PathItem

def read : Reader PathItem :=
  Layout.read ⟨"ShimPathItem",
    ⟨"parameters", true⟩ :: Api.HttpMethod.all.map fun method => ⟨method.key, false⟩⟩
    (fun item key value =>
      if key = "parameters" then
        (listOf (refOr Parameter.read) value).map fun parameters => { item with parameters }
      else
        match Api.HttpMethod.all.find? (·.key = key) with
        | some method => (orNull Operation.read value).map fun operation =>
          { item with operation? := fun other =>
              if other = method then operation else item.operation? other }
        | none => .ok item)
    ⟨[], fun _ => none⟩

end PathItem

namespace Components

def read : Reader Components :=
  Layout.read ⟨"ShimComponents",
    [⟨"schemas", true⟩, ⟨"parameters", true⟩, ⟨"requestBodies", true⟩, ⟨"responses", true⟩,
      ⟨"securitySchemes", true⟩]⟩
    (fun components key value =>
      match key with
      | "schemas" => (tableOf node value).map fun schemas => { components with schemas }
      | "parameters" =>
        (tableOf (refOr Parameter.read) value).map fun parameters => { components with parameters }
      | "requestBodies" =>
        (tableOf (refOr RequestBody.read) value).map fun requestBodies =>
          { components with requestBodies }
      | "responses" =>
        (tableOf (refOr Response.read) value).map fun responses => { components with responses }
      | "securitySchemes" =>
        (tableOf (refOr SecurityScheme.read) value).map fun securitySchemes =>
          { components with securitySchemes }
      | _ => .ok components)
    Components.none

end Components

/-- Whether a key of the paths is an extension of the specification, which is passed over. -/
def isExtensionKey (key : String) : Bool := ['x', '-'].isPrefixOf key.toList

def readPaths : Reader (Table String PathItem)
  | .object fields => do
    let entries ← (fields.filter fun field => !isExtensionKey field.1).mapM
      fun (field : String × Value) =>
        match PathItem.read field.2 with
        | .ok item => .ok (field.1, item)
        | .error fault => .error (.atPath field.1 fault)
    return Table.ofList entries
  | value => .error (.wrongKind value .map)

def readAs (version : String) : Reader Document :=
  Layout.read ⟨"ShimOpenApi",
    [⟨"openapi", false⟩, ⟨"servers", true⟩, ⟨"paths", true⟩, ⟨"components", true⟩]⟩
    (fun document key value =>
      match key with
      | "servers" => (listOf Server.read value).map fun servers => { document with servers }
      | "paths" => (readPaths value).map fun paths => { document with paths }
      | "components" =>
        (orNull Components.read value).map fun components => { document with components }
      | _ => .ok document)
    ⟨version, [], Table.empty, none⟩

def parse (text : String) : Except ParseFault Document :=
  match Yaml.valueOf? text with
  | none => .error .notYaml
  | some value =>
    match (value.field? "openapi").bind Value.string? with
    | none => .error .missingVersion
    | some version =>
      if ['3', '.'].isPrefixOf version.toList then (readAs version value).mapError .structure
      else .error (.unsupportedVersion version)

end ClientForge.Document
