import ClientForge.Document.Read
import ClientForge.FileTree
import ClientForge.Plan.Build
import ClientForge.Resolve.Model
import ClientForge.Source.File

/-!
A run from a configuration to written files. Whatever can fail before the first file is written
fails before it.
-/

namespace ClientForge

/-- A world that files are read from and written to. -/
class FileStore (m : Type → Type) where
  read : String → m (Except FileFault String)
  /-- Writes a file below a directory, and makes the directories that it is in. -/
  save : String → List String → String → m (Except FileFault Unit)

instance : FileStore (StateM FileTree) where
  read path := return (← get).read path
  save directory segments content := (FileTree.save directory segments content).run

def Api.Model.ofText (text : String) : Except Failure Api.Model := do
  let document ← (Document.parse text).mapError .parse
  (Resolve.model document).mapError .reference

structure Summary where
  clients : Nat
  models : Nat
  deriving DecidableEq, Repr

namespace Config

variable {m : Type → Type} [Monad m] [FileStore m]

/-- The plan of a run. The modules come first, so that an unknown one is found before the document
is looked for. -/
def plan (config : Config) : ExceptT Failure m Plan := do
  let extensions ← config.extensions
  let text ← ExceptT.mk do
    return (← FileStore.read config.document).mapError (.inputNotFound config.document)
  let model ← Api.Model.ofText text
  return Plan.build model config (Extension.settings extensions)

/-- Writes files below a directory one after the other, up to the first that cannot be written. -/
def writeFiles (directory : String) : List Source.File → ExceptT Failure m Unit
  | [] => return
  | file :: rest => do
    ExceptT.mk do return (← FileStore.save directory file.path file.contents).mapError .file
    writeFiles directory rest

/-- A run: makes the plan and writes its files below the output directory. -/
def run (config : Config) : ExceptT Failure m Summary := do
  let plan ← config.plan
  writeFiles config.output (Source.files plan)
  return ⟨plan.clients.length, plan.models.length⟩

end Config

end ClientForge
