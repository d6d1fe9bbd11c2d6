import ClientForge.Source.Client
import ClientForge.Source.Config
import ClientForge.Source.Model
import ClientForge.Text.Split

/-!
The files of a run and the tree of modules that they form.
-/

namespace ClientForge.Source

open Plan

/-- A file: the segments of its path below the output directory, and its lines. -/
structure File where
  path : List String
  lines : List String
  deriving DecidableEq, Repr

def File.pathText (file : File) : String := Text.joinPath "" file.path

def File.contents (file : File) : String := text file.lines

def moduleLine (isPublic : Bool) (name : String) : String :=
  (if isPublic then "pub mod " else "mod ") ++ name ++ ";"

/-- The files that lead from the outermost module of a package to the innermost one. -/
def parentFiles (front : List String) : List String → List File
  | outer :: inner :: rest =>
    ⟨front ++ [outer, "mod.rs"], header ++ [moduleLine true inner]⟩ ::
      parentFiles (front ++ [outer]) (inner :: rest)
  | _ => []

def rootLines : List String :=
  header ++
    ["//! Generated API client.",
      "",
      moduleLine true "clients",
      moduleLine true "config",
      moduleLine true "models",
      "",
      "pub use config::ClientConfig;"]

/-- The lines of a module that declares modules and exports one item of each. -/
def indexLines (doc : String) (isPublic : Bool) : List (String × String) → List String
  | [] => header ++ ["//! " ++ doc]
  | entries =>
    header ++ ["//! " ++ doc, ""] ++
      entries.map (fun (name, _) => moduleLine isPublic name) ++ [""] ++
      entries.map fun (name, item) => "pub use " ++ name ++ "::" ++ item ++ ";"

def files (plan : Plan) : List File :=
  let root := plan.package
  parentFiles [] root ++
    [⟨root ++ ["mod.rs"], rootLines⟩,
      ⟨root ++ ["config.rs"], configLines plan⟩,
      ⟨root ++ ["clients", "mod.rs"],
        indexLines "API clients, one per tag." true
          (plan.clients.map fun client => (client.moduleName, client.typeName))⟩] ++
    plan.clients.map (fun client =>
      ⟨root ++ ["clients", client.moduleName ++ ".rs"], clientLines client⟩) ++
    [⟨root ++ ["models", "mod.rs"],
        indexLines "Model types." false
          (plan.models.map fun model => (model.fileStem, model.typeName))⟩] ++
    plan.models.map fun model =>
      ⟨root ++ ["models", model.fileStem ++ ".rs"], modelLines plan.settings model⟩

end ClientForge.Source
