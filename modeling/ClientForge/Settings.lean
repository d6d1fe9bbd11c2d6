import ClientForge.Text.Split

/-!
Settings of a run, and the modules that change them.
-/

namespace ClientForge

structure Settings where
  /-- The member that every enumeration gets for literals it does not know. -/
  enumFallback : Option String
  /-- The statement that runs when a request fails. -/
  errorLog : Option String
  denyUnknownFields : Bool
  explicitNulls : Bool
  deriving DecidableEq, Repr

def Settings.standard : Settings := ⟨none, none, false, false⟩

inductive Extension where
  | unknownEnumFallback
  | errorLogging
  | strictCodec
  deriving DecidableEq, Repr

namespace Extension

def all : List Extension := [unknownEnumFallback, errorLogging, strictCodec]

/-- The name under which a module is switched on. -/
def id : Extension → String
  | unknownEnumFallback => "unknown-enum-fallback"
  | errorLogging => "error-logging"
  | strictCodec => "strict-codec"

/-- The module of a name; blanks around the name do not count. -/
def ofId? (name : String) : Option Extension :=
  all.find? fun extension => extension.id = Text.trim name

def configure (settings : Settings) : Extension → Settings
  | unknownEnumFallback => { settings with enumFallback := some "Unknown" }
  | errorLogging =>
    { settings with errorLog := some "tracing::error!(%error, \"request failed\");" }
  | strictCodec => { settings with denyUnknownFields := true, explicitNulls := true }

/-- The settings after modules have changed them in turn. -/
def settings (extensions : List Extension) : Settings :=
  extensions.foldl configure Settings.standard

end Extension

end ClientForge
