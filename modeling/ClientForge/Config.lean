import ClientForge.Failure
import ClientForge.Ident.Basic
import ClientForge.Settings
import ClientForge.Text.Replace
import ClientForge.Text.Split

/-!
What a run is asked to do.
-/

namespace ClientForge

/-- The document of a run, where its output goes and how, which paths it is about, and the modules
that are switched on. -/
structure Config where
  document : String
  output : String
  basePackage : String
  operations : List String
  modules : List String
  deriving DecidableEq, Repr

namespace Config

def standardPackage : String := "example"

def standard : Config := ⟨"", "", standardPackage, [], []⟩

def allowsAll (config : Config) : Bool := config.operations.isEmpty

/-- Whether the operations at a path are wanted: no paths are listed, or this one is. -/
def allows (config : Config) (path : String) : Bool :=
  config.allowsAll || config.operations.contains path

def modulesOf : List String → Except Failure (List Extension)
  | [] => .ok []
  | name :: names =>
    match Extension.ofId? name with
    | none => .error (.moduleNotFound name)
    | some extension => (modulesOf names).map (extension :: ·)

def extensions (config : Config) : Except Failure (List Extension) := modulesOf config.modules

/-- The nested modules that a package names: `com.acme::pets` is `com`, `acme`, `pets`. -/
def packageSegments (config : Config) : List String :=
  let parts := (Text.splitAt '.' (Text.replace "::" "." config.basePackage)).map Text.trim
  match (parts.filter (· ≠ "")).map Ident.snakeIdent with
  | [] => [standardPackage]
  | first :: rest => first :: rest

end Config

end ClientForge
