import ClientForge.Plan.Declaration
import ClientForge.Source.Basic

/-!
Outcomes of a method: the type that declares them, and the choice among them by status. Single codes
are tried first, then classes of codes, then the default outcome for every class of failures that is
not documented, and last the outcome for everything else.
-/

namespace ClientForge.Source

open Api Plan

/-- Stands before the models in the sources of clients. -/
def clientQualifier : String := "models::"

inductive Payload where
  | nothing
  | body
  | status
  | statusAndBody
  deriving DecidableEq, Repr

def payload (variant : Variant) : Payload :=
  match variant.status, variant.body with
  | .default, some _ => .statusAndBody
  | .default, none => .status
  | _, some _ => .body
  | _, none => .nothing

/-- Which codes an arm is for. -/
inductive Pattern where
  | code (code : Nat)
  | hundred (hundred : Nat)
  | hundreds (first : Nat) (others : List Nat)
  | any
  deriving DecidableEq, Repr

/-- An arm of the choice by status: it builds `variant`. -/
structure Arm where
  pattern : Pattern
  variant : String
  payload : Payload
  deriving DecidableEq, Repr

def isExact (variant : Variant) : Bool :=
  match variant.status with
  | .exact _ => true
  | _ => false

def isRange (variant : Variant) : Bool :=
  match variant.status with
  | .range _ => true
  | _ => false

def documentedArm? (variant : Variant) : Option Arm :=
  match variant.status with
  | .exact code => some ⟨.code code, variant.name, payload variant⟩
  | .range hundred => some ⟨.hundred hundred, variant.name, payload variant⟩
  | .default => none

/-- The classes of failures that are not documented as a class. -/
def openFailures (variants : List Variant) : List Nat :=
  [4, 5].filter fun hundred => !variants.any (·.status = .range hundred)

/-- The arm of the default outcome, if it is left with a class of failures. -/
def defaultArm? (variants : List Variant) : Option Arm :=
  match variants.find? (·.status = .default), openFailures variants with
  | some variant, first :: others =>
    some ⟨.hundreds first others, variant.name, payload variant⟩
  | _, _ => none

/-- The arms of the choice by status, in order. -/
def arms (family : Family) : List Arm :=
  (family.variants.filter isExact ++ family.variants.filter isRange).filterMap documentedArm? ++
    (defaultArm? family.variants).toList ++ [⟨.any, family.unknownFailure, .status⟩]

def hundredText (hundred : Nat) : String :=
  toString (100 * hundred) ++ "..=" ++ toString (100 * hundred + 99)

def Pattern.text : Pattern → String
  | .code n => toString n
  | .hundred n => hundredText n
  | .hundreds first [] => "status_code @ " ++ hundredText first
  | .hundreds first others =>
    "status_code @ (" ++ " | ".intercalate ((first :: others).map hundredText) ++ ")"
  | .any => "status_code"

def Payload.argument : Payload → String
  | nothing => ""
  | body => "(response.json().await?)"
  | status => " \x7b status_code \x7d"
  | statusAndBody => " \x7b status_code, body: response.json().await? \x7d"

def Arm.text (familyType : String) (arm : Arm) : String :=
  arm.pattern.text ++ " => Ok(" ++ familyType ++ "::" ++ arm.variant ++ arm.payload.argument ++ "),"

def dispatchLines (family : Family) : List String :=
  ["        match response.status().as_u16() \x7b"] ++
    (arms family).map (fun arm => "            " ++ arm.text family.typeName) ++
    ["        \x7d"]

/-- The declaration of a variant that carries `payload`. -/
def payloadLines (name : String) (type : String) : Payload → List String
  | .nothing => ["    " ++ name ++ ","]
  | .body => ["    " ++ name ++ "(" ++ type ++ "),"]
  | .status =>
    ["    " ++ name ++ " \x7b",
      "        /// Received status code.",
      "        status_code: u16,",
      "    \x7d,"]
  | .statusAndBody =>
    ["    " ++ name ++ " \x7b",
      "        /// Received status code.",
      "        status_code: u16,",
      "        /// Decoded payload.",
      "        body: " ++ type ++ ",",
      "    \x7d,"]

def variantLines (variant : Variant) : List String :=
  docComment "    " variant.description ++
    payloadLines variant.name ((variant.body.map (TypeRef.text clientQualifier)).getD "")
      (payload variant)

def familyLines (family : Family) (clientType method : String) : List String :=
  ["/// Outcomes of [`" ++ clientType ++ "::" ++ method ++ "`].",
    "#[derive(Debug, Clone, PartialEq)]",
    "pub enum " ++ family.typeName ++ " \x7b"] ++
    family.variants.flatMap variantLines ++
    ["    /// A status code the API description does not document."] ++
    payloadLines family.unknownFailure "" .status ++
    ["\x7d"]

end ClientForge.Source
