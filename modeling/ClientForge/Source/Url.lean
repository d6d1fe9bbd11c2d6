import ClientForge.Plan.Declaration
import ClientForge.Text.Quoted

/-!
The URL of a request. A placeholder of the path template is a nonempty name without braces between
braces; where it names a path parameter, the parameter's value takes its place.
-/

namespace ClientForge.Source

open Plan

inductive PathPart where
  | char (c : Char)
  | placeholder (name : List Char)
  deriving DecidableEq, Repr

def isBrace (c : Char) : Bool := c == '\x7b' || c == '\x7d'

/-- The name of the placeholder that an opening brace before `rest` begins. -/
def placeholderName? (rest : List Char) : Option (List Char) :=
  let name := rest.takeWhile (!isBrace ·)
  if name ≠ [] && (rest.drop name.length).head? = some '\x7d' then some name else none

/-- The parts of a path template, from left to right; `skip` characters still belong to the
placeholder found last. -/
def partsFrom : Nat → List Char → List PathPart
  | _, [] => []
  | skip + 1, _ :: rest => partsFrom skip rest
  | 0, c :: rest =>
    if c = '\x7b' then
      match placeholderName? rest with
      | some name => .placeholder name :: partsFrom (name.length + 1) rest
      | none => .char c :: partsFrom 0 rest
    else .char c :: partsFrom 0 rest

def pathParts (path : String) : List PathPart := partsFrom 0 path.toList

def pathParam? (params : List Param) (name : List Char) : Option Param :=
  params.find? fun param => param.location = .path && param.wireName.toList = name

/-- A character of a format string; braces are written twice. -/
def formatChar (c : Char) : List Char := if isBrace c then [c, c] else [c]

/-- A part of the path in a format string. -/
def formatPart (params : List Param) : PathPart → List Char
  | .char c => formatChar c
  | .placeholder name =>
    match pathParam? params name with
    | some _ => ['\x7b', '\x7d']
    | none => ('\x7b' :: name ++ ['\x7d']).flatMap formatChar

def formatArgument? (params : List Param) : PathPart → Option String
  | .char _ => none
  | .placeholder name => (pathParam? params name).map (·.ident)

def formatString (params : List Param) (path : String) : String :=
  String.ofList ((pathParts path).flatMap (formatPart params))

def formatArguments (params : List Param) (path : String) : List String :=
  (pathParts path).filterMap (formatArgument? params)

def urlExpression (params : List Param) (path : String) : String :=
  match formatArguments params path with
  | [] => "self.config.url(" ++ Text.quoted path ++ ")"
  | arguments =>
    "self.config.url(&format!(" ++ Text.quoted (formatString params path) ++ ", " ++
      ", ".intercalate arguments ++ "))"

end ClientForge.Source
