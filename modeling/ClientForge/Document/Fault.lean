import ClientForge.Text.Quoted
import ClientForge.Value.Compact

/-!
What can be wrong with a value that should be a part of a document.
-/

namespace ClientForge.Document

/-- What was expected in the place of a value. -/
inductive Expected where
  | string
  | boolean
  | sequence
  | map
  | struct (name : String)
  deriving DecidableEq, Repr

def Expected.text : Expected → String
  | string => "a string"
  | boolean => "a boolean"
  | sequence => "a sequence"
  | map => "a map"
  | struct name => "struct " ++ name

def describe : Value → String
  | .null => "null"
  | .bool b => "boolean `" ++ (if b then "true" else "false") ++ "`"
  | .number (.integer n) => "integer `" ++ toString n ++ "`"
  | .number (.real x) => "floating point `" ++ x.text ++ "`"
  | .string s => "string " ++ Text.quoted s
  | .array _ => "sequence"
  | .object _ => "map"

/-- The first fault of a document's structure. -/
inductive Fault where
  | wrongKind (found : Value) (expected : Expected)
  | missingField (name : String)
  | tooShort (index : Nat) (name : String) (fields : Nat)
  | tooLong (items : Nat)
  | noAlternative
  | atPath (path : String) (fault : Fault)
  deriving Repr

def Fault.message : Fault → String
  | wrongKind found expected =>
    "invalid type: " ++ describe found ++ ", expected " ++ expected.text
  | missingField name => "missing field `" ++ name ++ "`"
  | tooShort index name fields =>
    "invalid length " ++ toString index ++ ", expected struct " ++ name ++ " with " ++
      toString fields ++ (if fields = 1 then " element" else " elements")
  | tooLong items =>
    "invalid length " ++ toString items ++ ", expected fewer elements in array"
  | noAlternative => "data did not match any variant of untagged enum RefOr"
  | atPath path fault => "Failed to parse path item '" ++ path ++ "': " ++ fault.message

end ClientForge.Document
