import ClientForge.Config.Parse
import ClientForge.Run

/-!
What the command line asks for, and what it reports.
-/

namespace ClientForge

/-- What a run is asked to do on the command line. What is given there wins over the configuration
file. -/
structure Arguments where
  input : Option String
  output : Option String
  package : Option String
  operations : List String
  modules : List String
  config : Option String
  deriving DecidableEq, Repr

inductive Command where
  | version
  | modules
  | generate (arguments : Arguments)
  deriving DecidableEq, Repr

inductive CommandFault where
  | file (fault : FileFault)
  | unreadableConfig
  | noDocument
  | noOutput
  | failed (failure : Failure)

def CommandFault.message : CommandFault → String
  | file fault => "IO Error: " ++ fault.message
  | unreadableConfig => "Invalid configuration file"
  | noDocument => "Operation failed: no input document given (use --input or a config file)"
  | noOutput => "Operation failed: no output directory given (use --output or a config file)"
  | failed failure => failure.message

def Arguments.override (arguments : Arguments) (config : Config) : Config :=
  { document := arguments.input.getD config.document
    output := arguments.output.getD config.output
    basePackage := arguments.package.getD config.basePackage
    operations := if arguments.operations.isEmpty then config.operations else arguments.operations
    modules := if arguments.modules.isEmpty then config.modules else arguments.modules }

/-- What a command leaves behind: its exit code, what it prints, and why it failed. -/
structure Report where
  code : Nat
  output : String
  failure : Option String
  deriving DecidableEq, Repr

namespace Report

def success (output : String) : Report := ⟨0, output, none⟩

def failed (fault : CommandFault) : Report := ⟨1, "", some fault.message⟩

/-- A command line that asks for nothing that can be done. -/
def usage : Report := ⟨2, "", none⟩

end Report

variable {m : Type → Type} [Monad m] [FileStore m]

/-- The configuration of a run: that of the configuration file, or the standard one, under what is
given on the command line. -/
def Arguments.toConfig (arguments : Arguments) : ExceptT CommandFault m Config := do
  let base ←
    match arguments.config with
    | none => pure Config.standard
    | some path =>
      let text ← ExceptT.mk do return (← FileStore.read path).mapError .file
      match Config.parse? text with
      | none => throw .unreadableConfig
      | some config => pure config
  let config := arguments.override base
  if config.document = "" then throw .noDocument
  if config.output = "" then throw .noOutput
  return config

def Arguments.generate (arguments : Arguments) : ExceptT CommandFault m String := do
  let config ← arguments.toConfig
  let summary ← ExceptT.mk do return (← config.run.run).mapError .failed
  return "Generated " ++ toString summary.clients ++ " client module(s) and " ++
    toString summary.models ++ " model type(s) in " ++ config.output ++ "\n"

namespace Command

def versionText : String := "clientgen-cli 0.1.0"

def run : Command → m Report
  | version => return .success (versionText ++ "\n")
  | modules => return .success (String.join (Extension.all.map fun extension => extension.id ++ "\n"))
  | generate arguments => do
    match ← arguments.generate.run with
    | .ok output => return .success output
    | .error fault => return .failed fault

end Command

end ClientForge
