import ClientForge.Document.Fault

/-!
Why a run stops, and how that is worded.
-/

namespace ClientForge

inductive FileFault where
  | notFound
  | alreadyExists
  | notDirectory
  | isDirectory
  | nameTooLong
  | nulInName
  | notUtf8
  /-- Any other fault, by the number and the text that the system has for it. -/
  | system (code : Nat) (text : String)
  deriving DecidableEq, Repr

def FileFault.message : FileFault → String
  | notFound => "No such file or directory (os error 2)"
  | alreadyExists => "File exists (os error 17)"
  | notDirectory => "Not a directory (os error 20)"
  | isDirectory => "Is a directory (os error 21)"
  | nameTooLong => "File name too long (os error 36)"
  | nulInName => "file name contained an unexpected NUL byte"
  | system code text => text ++ " (os error " ++ toString code ++ ")"
  | notUtf8 => "stream did not contain valid UTF-8"

inductive ParseFault where
  | notYaml
  | missingVersion
  | unsupportedVersion (version : String)
  | structure (fault : Document.Fault)
  deriving Repr

def ParseFault.message : ParseFault → String
  | notYaml => "Failed to parse OpenAPI document"
  | missingVersion => "Invalid OpenAPI document: missing 'openapi' version field."
  | unsupportedVersion version =>
    "Unsupported OpenAPI version: " ++ version ++ ". Only 3.x is supported."
  | .structure fault => "Failed to read OpenAPI structure: " ++ fault.message

inductive ReferenceFault where
  | externalSchema (location : String)
  | undefinedSchema (name : String)
  | external (location : String)
  | undefined (part name : String)
  | tooDeep (part : String)
  deriving DecidableEq, Repr

def ReferenceFault.message : ReferenceFault → String
  | externalSchema location => "Unsupported or external schema reference '" ++ location ++ "'"
  | undefinedSchema name => "Reference to undefined schema '" ++ name ++ "'"
  | external location => "Unsupported or external reference '" ++ location ++ "'"
  | undefined part name => "Reference to undefined " ++ part ++ " entry '" ++ name ++ "'"
  | tooDeep part => "Reference chain in '" ++ part ++ "' is too deep or cyclic"

/-- The kinds of failures; a document that was not found is called by its location. -/
inductive FailureKind where
  | file
  | inputNotFound (location : String)
  | parse
  | reference
  | moduleNotFound
  | general
  deriving DecidableEq, Repr

namespace FailureKind

/-- A failure of the kind, worded around its detail. -/
def message (detail : String) : FailureKind → String
  | file => "IO Error: " ++ detail
  | inputNotFound location => "Input not found: '" ++ location ++ "' (" ++ detail ++ ")"
  | parse => "Parse Error: " ++ detail
  | reference => "Schema Resolution Error: " ++ detail
  | moduleNotFound => "Module Not Found: '" ++ detail ++ "'"
  | general => "General Error: " ++ detail

/-- Whether the detail is itself the message of a fault beneath. -/
def hasSource : FailureKind → Bool
  | file => true
  | inputNotFound _ => true
  | _ => false

end FailureKind

/-- Why a run stops. -/
inductive Failure where
  | file (fault : FileFault)
  | inputNotFound (location : String) (fault : FileFault)
  | parse (fault : ParseFault)
  | reference (fault : ReferenceFault)
  | moduleNotFound (id : String)
  deriving Repr

namespace Failure

def kind : Failure → FailureKind
  | file _ => .file
  | inputNotFound location _ => .inputNotFound location
  | parse _ => .parse
  | reference _ => .reference
  | moduleNotFound _ => .moduleNotFound

/-- What distinguishes a failure from the others of its kind. -/
def detail : Failure → String
  | file fault => fault.message
  | inputNotFound _ fault => fault.message
  | parse fault => fault.message
  | reference fault => fault.message
  | moduleNotFound id => id

def message (failure : Failure) : String := failure.kind.message failure.detail

end Failure

end ClientForge
