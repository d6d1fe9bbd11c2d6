import ClientForge.Document.Basic

/-!
Schemas of a document as values. Reading takes the keywords that matter; writing leaves out the
keywords that are absent, so that two schemas mean the same definition if they write equal values.
-/

namespace ClientForge.Document

/-- The text under a key, which may be absent. Anything else that is there, null included, is refused. -/
def textField? (key : String) (fields : List (String × Value)) : Option (Option String) :=
  match fields.lookup key with
  | none => some none
  | some (.string s) => some (some s)
  | some _ => none

namespace Reference

/-- Reads a reference: an object with a location and perhaps a description and a summary, or a list
of these three texts from the front. -/
def ofValue? : Value → Option Reference
  | .object fields => do
    let .string location ← fields.lookup "$ref" | none
    let description ← textField? "description" fields
    let summary ← textField? "summary" fields
    some ⟨location, description.getD "", summary.getD ""⟩
  | .array [.string location] => some ⟨location, "", ""⟩
  | .array [.string location, .string description] => some ⟨location, description, ""⟩
  | .array [.string location, .string description, .string summary] =>
    some ⟨location, description, summary⟩
  | _ => none

def toValue (target : Reference) : Value :=
  .object (("$ref", .string target.location) ::
    ((if target.description = "" then [] else [("description", .string target.description)]) ++
      (if target.summary = "" then [] else [("summary", .string target.summary)])))

end Reference

def strings? (items : List Value) : Option (List String) := items.mapM Value.string?

namespace TypeKeyword

def ofValue? : Value → Option TypeKeyword
  | .string name => some (.one name)
  | .array items => (strings? items).map .several
  | _ => none

def toValue : TypeKeyword → Value
  | one name => .string name
  | several names => .array (names.map .string)

end TypeKeyword

/-- A schema whose keywords are being read. -/
structure Draft where
  keywords : Keywords
  items : Option SchemaNode
  properties : List (String × SchemaNode)
  additional : Option (Additional SchemaNode)
  allOf : List SchemaNode
  oneOf : List SchemaNode
  anyOf : List SchemaNode

namespace Draft

def blank : Draft := ⟨⟨none, none, none, [], false, none⟩, none, [], none, [], [], []⟩

def schema (draft : Draft) : SchemaNode :=
  .inline draft.keywords draft.items draft.properties draft.additional draft.allOf draft.oneOf
    draft.anyOf

/-- Reads one keyword; `node`, `nodes` and `properties` read its value as schemas. -/
def set? (draft : Draft) (key : String) (value : Value) (node : Unit → Option SchemaNode)
    (nodes : Unit → Option (List SchemaNode))
    (properties : Unit → Option (List (String × SchemaNode))) : Option Draft :=
  let keywords := draft.keywords
  match key with
  | "type" =>
    if value.isNull then some { draft with keywords := { keywords with type := none } }
    else (TypeKeyword.ofValue? value).map fun type =>
      { draft with keywords := { keywords with type := some type } }
  | "format" =>
    if value.isNull then some { draft with keywords := { keywords with format := none } }
    else value.string?.map fun format =>
      { draft with keywords := { keywords with format := some format } }
  | "enum" =>
    match value with
    | .null => some { draft with keywords := { keywords with literals := none } }
    | .array literals => some { draft with keywords := { keywords with literals := some literals } }
    | _ => none
  | "items" =>
    if value.isNull then some { draft with items := none }
    else (node ()).map fun items => { draft with items := some items }
  | "properties" => (properties ()).map fun properties => { draft with properties }
  | "required" =>
    match value with
    | .array names => (strings? names).map fun required =>
      { draft with keywords := { keywords with required } }
    | _ => none
  | "additionalProperties" =>
    match value with
    | .null => some { draft with additional := none }
    | .bool allowed => some { draft with additional := some (.flag allowed) }
    | _ => (node ()).map fun values => { draft with additional := some (.schema values) }
  | "allOf" => (nodes ()).map fun allOf => { draft with allOf }
  | "oneOf" => (nodes ()).map fun oneOf => { draft with oneOf }
  | "anyOf" => (nodes ()).map fun anyOf => { draft with anyOf }
  | "nullable" =>
    match value with
    | .bool nullable => some { draft with keywords := { keywords with nullable } }
    | _ => none
  | "description" =>
    if value.isNull then some { draft with keywords := { keywords with description := none } }
    else value.string?.map fun description =>
      { draft with keywords := { keywords with description := some description } }
  | _ => some draft

end Draft

namespace SchemaNode

/-- The keywords of a schema, in the order in which a list gives them. -/
def keys : List String :=
  ["type", "format", "enum", "items", "properties", "required", "additionalProperties", "allOf",
    "oneOf", "anyOf", "nullable", "description"]

mutual

/-- Reads a schema or a reference; a value that can be a reference is one. -/
def ofValue? : Value → Option SchemaNode
  | .object fields =>
    match Reference.ofValue? (.object fields) with
    | some target => some (.ref target)
    | none => (ofFields? fields .blank).map Draft.schema
  | .array items =>
    match Reference.ofValue? (.array items) with
    | some target => some (.ref target)
    | none =>
      if items.length = keys.length then (ofItems? items keys .blank).map Draft.schema else none
  | _ => none

def ofFields? : List (String × Value) → Draft → Option Draft
  | [], draft => some draft
  | (key, value) :: rest, draft =>
    match draft.set? key value (fun _ => ofValue? value) (fun _ => nodes? value)
        (fun _ => properties? value) with
    | some draft => ofFields? rest draft
    | none => none

def ofItems? : List Value → List String → Draft → Option Draft
  | value :: rest, key :: keys, draft =>
    match draft.set? key value (fun _ => ofValue? value) (fun _ => nodes? value)
        (fun _ => properties? value) with
    | some draft => ofItems? rest keys draft
    | none => none
  | _, _, draft => some draft

def nodes? : Value → Option (List SchemaNode)
  | .array items => allOfValues? items
  | _ => none

def properties? : Value → Option (List (String × SchemaNode))
  | .object fields => propertiesOfFields? fields
  | _ => none

def allOfValues? : List Value → Option (List SchemaNode)
  | [] => some []
  | value :: rest =>
    match ofValue? value with
    | some node => (allOfValues? rest).map (node :: ·)
    | none => none

def propertiesOfFields? : List (String × Value) → Option (List (String × SchemaNode))
  | [] => some []
  | (key, value) :: rest =>
    match ofValue? value with
    | some node => (propertiesOfFields? rest).map ((key, node) :: ·)
    | none => none

end

/-- A field that is written only if there is something to write. -/
def fieldOf (key : String) : Option Value → List (String × Value)
  | some value => [(key, value)]
  | none => []

def listOf (key : String) : List Value → List (String × Value)
  | [] => []
  | items => [(key, .array items)]

mutual

def toValue : SchemaNode → Value
  | .ref target => target.toValue
  | .inline keywords items properties additional allOf oneOf anyOf =>
    .object <|
      fieldOf "type" (keywords.type.map TypeKeyword.toValue) ++
      fieldOf "format" (keywords.format.map .string) ++
      fieldOf "enum" (keywords.literals.map .array) ++
      fieldOf "items" (match items with
        | some node => some (toValue node)
        | none => none) ++
      (match properties with
        | [] => []
        | first :: rest => [("properties", .object (fieldsOf (first :: rest)))]) ++
      listOf "required" (keywords.required.map .string) ++
      fieldOf "additionalProperties" (match additional with
        | some (.flag allowed) => some (.bool allowed)
        | some (.schema values) => some (toValue values)
        | none => none) ++
      listOf "allOf" (toValues allOf) ++
      listOf "oneOf" (toValues oneOf) ++
      listOf "anyOf" (toValues anyOf) ++
      (if keywords.nullable then [("nullable", .bool true)] else []) ++
      fieldOf "description" (keywords.description.map .string)

def toValues : List SchemaNode → List Value
  | [] => []
  | node :: rest => toValue node :: toValues rest

def fieldsOf : List (String × SchemaNode) → List (String × Value)
  | [] => []
  | (name, node) :: rest => (name, toValue node) :: fieldsOf rest

end

/-- What a schema that stands in its place defines. -/
def definition? : SchemaNode → Option Value
  | .ref _ => none
  | node => some node.toValue

end SchemaNode

end ClientForge.Document
