import ClientForge.Plan.Declaration
import ClientForge.Source.Basic
import ClientForge.Text.Quoted

/-!
The source of a model.
-/

namespace ClientForge.Source

open Api Plan

/-- Stands before the models in the source of another model. -/
def siblingQualifier : String := "super::"

/-- The attributes of a field: its name on the wire if it differs, and what happens when an optional
one is absent. -/
def fieldAttributes (settings : Settings) (field : Field) : List String :=
  (if field.ident = field.wireName then [] else ["rename = " ++ Text.quoted field.wireName]) ++
    (if field.type.isOptional then
      "default" ::
        (if settings.explicitNulls then [] else ["skip_serializing_if = \"Option::is_none\""])
    else [])

def fieldType (field : Field) : String :=
  if field.boxed then field.type.boxedText siblingQualifier else field.type.text siblingQualifier

def fieldLines (settings : Settings) (field : Field) : List String :=
  docComment "    " field.description ++
    (match fieldAttributes settings field with
      | [] => []
      | attributes => ["    #[serde(" ++ ", ".intercalate attributes ++ ")]"]) ++
    ["    pub " ++ field.ident ++ ": " ++ fieldType field ++ ","]

def memberLines (member : Member) : List String :=
  (if member.ident = member.literal then []
    else ["    #[serde(rename = " ++ Text.quoted member.literal ++ ")]"]) ++
    ["    " ++ member.ident ++ ","]

/-- The member of an enumeration for unknown literals. -/
def fallbackLines (fallback : String) : List String :=
  ["    /// Any value this version of the client does not know.",
    "    #[default]",
    "    #[serde(other)]",
    "    " ++ fallback ++ ","]

def displayArm (ident literal : String) : String :=
  "            Self::" ++ ident ++ " => " ++ Text.quoted literal ++ ","

def displayLines (members : List Member) (fallback : Option String) : List String :=
  match members, fallback with
  | [], none => ["        match *self \x7b\x7d"]
  | _, _ =>
    ["        f.write_str(match self \x7b"] ++
      members.map (fun member => displayArm member.ident member.literal) ++
      (fallback.map fun ident => displayArm ident ident).toList ++
      ["        \x7d)"]

/-- What models with a type of their own import. -/
def codecLines : List String := ["use serde::\x7bDeserialize, Serialize\x7d;", ""]

def schemaLine (model : ModelDecl) : String := "/// `" ++ model.schemaName ++ "`"

def modelLines (settings : Settings) (model : ModelDecl) : List String :=
  header ++
    match model.kind with
    | .struct fields =>
      codecLines ++
        [schemaLine model,
          "#[derive(Debug, Clone, PartialEq, Serialize, Deserialize)]"] ++
        (if settings.denyUnknownFields then ["#[serde(deny_unknown_fields)]"] else []) ++
        ["pub struct " ++ model.typeName ++ " \x7b"] ++
        fields.flatMap (fieldLines settings) ++
        ["\x7d"]
    | .enumeration members fallback =>
      codecLines ++
        [schemaLine model,
          "#[derive(Debug, Clone, Copy, PartialEq, Eq, Hash, " ++
            (if fallback.isSome then "Default, " else "") ++ "Serialize, Deserialize)]",
          "pub enum " ++ model.typeName ++ " \x7b"] ++
        members.flatMap memberLines ++
        (fallback.map fallbackLines).getD [] ++
        ["\x7d",
          "",
          "impl std::fmt::Display for " ++ model.typeName ++ " \x7b",
          "    fn fmt(&self, f: &mut std::fmt::Formatter<'_>) -> std::fmt::Result \x7b"] ++
        displayLines members fallback ++
        ["    \x7d", "\x7d"]
    | .alias type =>
      [schemaLine model,
        "pub type " ++ model.typeName ++ " = " ++ type.text siblingQualifier ++ ";"]
    | .newtype type =>
      codecLines ++
        [schemaLine model,
          "#[derive(Debug, Clone, PartialEq, Serialize, Deserialize)]",
          "#[serde(transparent)]",
          "pub struct " ++ model.typeName ++ "(pub " ++ type.text siblingQualifier ++ ");"]

end ClientForge.Source
