import ClientForge.Api.Schema
import ClientForge.Document.Schema

/-!
What the schemas of a document describe, before any of them has a name. An object or a string
enumeration keeps its definition, by which it is recognised when it comes again.
-/

namespace ClientForge.Resolve

open Api Document

inductive Shape where
  | reference (location : String)
  | enumeration (definition : Value) (literals : List String)
  | record (definition : Value) (fields : List (String × Property Shape))
  | member (shape : Shape)
  | array (items : Option Shape)
  | map (values : Shape)
  | scalar (kind : Primitive) (format : Option String)
  | unknown
  deriving Repr

/-- The list without the items that came before. -/
def distinct (items : List String) : List String :=
  (items.foldl (fun (kept : List String) item => if item ∈ kept then kept else kept ++ [item]) [])

/-- The first name of the `type` keyword but `null`. -/
def primary? (keywords : Keywords) : Option String := keywords.type.bind TypeKeyword.primary?

def mayBeObject (keywords : Keywords) : Bool :=
  primary? keywords = none || primary? keywords = some "object"

def isNullable (keywords : Keywords) : Bool :=
  keywords.nullable || (keywords.type.map TypeKeyword.allowsNull).getD false

/-- The literals of a string enumeration; null is none of them. An enumeration of anything else is
not a string enumeration. -/
def literals? (keywords : Keywords) : Option (List String) :=
  if primary? keywords = none || primary? keywords = some "string" then
    match (keywords.literals.bind fun values =>
        (values.filter (!·.isNull)).mapM Value.string?) with
    | some (first :: rest) => some (distinct (first :: rest))
    | _ => none
  else none

/-- Whether a property may be null, and its description: a reference says neither. -/
def aboutNode : SchemaNode → Bool × Option String
  | .ref _ => (false, none)
  | .inline keywords _ _ _ _ _ _ => (isNullable keywords, keywords.description)

/-- What a schema without properties, combinators and string literals describes, given what its items
and its additional values describe. -/
def plain (keywords : Keywords) (items : Option Shape) (values : Option Shape) : Shape :=
  match primary? keywords with
  | some "array" => .array items
  | some "object" => match values with
    | some shape => .map shape
    | none => .unknown
  | none => match values with
    | some shape => .map shape
    | none => .unknown
  | some keyword => match Primitive.ofKeyword? keyword with
    | some kind => .scalar kind keywords.format
    | none => .unknown

mutual

def Shape.ofNode : SchemaNode → Shape
  | .ref target => .reference target.location
  | .inline keywords items properties additional allOf oneOf anyOf =>
    match literals? keywords with
    | some literals =>
      .enumeration (SchemaNode.inline keywords items properties additional allOf oneOf anyOf).toValue
        literals
    | none =>
      if mayBeObject keywords && !properties.isEmpty then
        .record (SchemaNode.inline keywords items properties additional allOf oneOf anyOf).toValue
          (fieldsOf keywords.required properties)
      else
        match allOf, properties with
        | [node], [] => .member (Shape.ofNode node)
        | _, _ =>
          if !allOf.isEmpty || !oneOf.isEmpty || !anyOf.isEmpty then .unknown
          else
            plain keywords
              (match items with
                | some node => some (Shape.ofNode node)
                | none => none)
              (match additional with
                | some (.schema node) => some (Shape.ofNode node)
                | _ => none)

/-- The fields of a record, of which `required` lists the ones that have to be there. -/
def fieldsOf (required : List String) : List (String × SchemaNode) → List (String × Property Shape)
  | [] => []
  | (name, node) :: rest =>
    let about := aboutNode node
    (name, ⟨Shape.ofNode node, required.contains name, about.1, about.2⟩) :: fieldsOf required rest

end

end ClientForge.Resolve
