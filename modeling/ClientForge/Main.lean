import ClientForge.Command.Arguments

/-!
The program: the command line over the files of the system.
-/

namespace ClientForge.Main

def systemFault? : IO.Error → Option (UInt32 × String)
  | .alreadyExists _ code text => some (code, text)
  | .otherError code text => some (code, text)
  | .resourceBusy code text => some (code, text)
  | .resourceVanished code text => some (code, text)
  | .unsupportedOperation code text => some (code, text)
  | .hardwareFault code text => some (code, text)
  | .unsatisfiedConstraints code text => some (code, text)
  | .illegalOperation code text => some (code, text)
  | .protocolError code text => some (code, text)
  | .timeExpired code text => some (code, text)
  | .interrupted _ code text => some (code, text)
  | .noFileOrDirectory _ code text => some (code, text)
  | .invalidArgument _ code text => some (code, text)
  | .permissionDenied _ code text => some (code, text)
  | .resourceExhausted _ code text => some (code, text)
  | .inappropriateType _ code text => some (code, text)
  | .noSuchThing _ code text => some (code, text)
  | .unexpectedEof => none
  | .userError _ => none

/-- The number of a fault, which some actions give with a minus sign. -/
def numberOf (code : UInt32) : Nat := min code.toNat (-code).toNat

def faultOf (error : IO.Error) : FileFault :=
  match systemFault? error with
  | none => .system 0 (toString error)
  | some (code, text) =>
    match numberOf code with
    | 2 => .notFound
    | 17 => .alreadyExists
    | 20 => .notDirectory
    | 21 => .isDirectory
    | 36 => .nameTooLong
    | number => .system number text

def attempt (action : IO α) : IO (Except FileFault α) := do
  try return .ok (← action)
  catch error => return .error (faultOf error)

def readText (path : String) : ExceptT FileFault IO String := do
  FileTree.checkPath path
  let content ← ExceptT.mk (attempt (IO.FS.readBinFile path))
  match String.fromUTF8? content with
  | none => throw .notUtf8
  | some text => return text

/-- Makes a directory unless it is there, and says whether it had to. If something else is there, the
fault is `blocked`. Only a directory has an entry for itself already. -/
def makeDirectory (path : String) (blocked : FileFault) : IO (Except FileFault Bool) := do
  match ← attempt (IO.FS.createDir path) with
  | .error .alreadyExists =>
    match ← attempt (IO.FS.createDir (path ++ "/.")) with
    | .error .alreadyExists => return .ok false
    | _ => return .error blocked
  | .error fault => return .error fault
  | .ok () => return .ok true

/-- Makes the directories that names lead through and to, behind those that are made; `made` says
whether one of those had to be. -/
def makeBehind (made : Bool) : String → List String → ExceptT FileFault IO Unit
  | _, [] => return
  | front, name :: rest => do
    let path := Text.pushSegment front name
    let blocked : FileFault :=
      if made || rest.all FileTree.staysAt then .alreadyExists else .notDirectory
    let madeHere ← if FileTree.staysAt name then pure false else ExceptT.mk (makeDirectory path blocked)
    makeBehind (made || madeHere) path rest

def saveText (directory : String) (segments : List String) (content : String) :
    ExceptT FileFault IO Unit := do
  FileTree.checkPath (Text.joinPath directory segments.dropLast)
  let front := if FileTree.startsFromRoot directory then "/" else ""
  makeBehind false front ((FileTree.names directory).filter (· ≠ "") ++ segments.dropLast)
  ExceptT.mk (attempt (IO.FS.writeFile (Text.joinPath directory segments) content))

instance : FileStore IO where
  read path := (readText path).run
  save directory segments content := (saveText directory segments content).run

def run (arguments : List String) : IO UInt32 := do
  match Command.ofArguments? (← IO.getEnv "CLIENTGEN_CONFIG") arguments with
  | none =>
    IO.eprintln "Usage: clientgen [--verbose] generate [OPTIONS] | modules | --version"
    return 2
  | some command =>
    let report : Report ← command.run
    IO.print report.output
    match report.failure with
    | some message => IO.eprintln ("Error: " ++ message)
    | none => pure ()
    return report.code.toUInt32

end ClientForge.Main

def main (arguments : List String) : IO UInt32 := ClientForge.Main.run arguments
