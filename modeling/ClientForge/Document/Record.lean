import ClientForge.Document.Fault

/-!
Reading records from values. A record is an object with known keys, of which the others do not
count, or a list of its fields in their declared order. Fields are read in the order of the value,
and the first fault is the one that is reported.
-/

namespace ClientForge.Document

/-- Reading a value, or the fault that it has. -/
abbrev Reader (α : Type) := Value → Except Fault α

namespace Reader

def text : Reader String
  | .string s => .ok s
  | value => .error (.wrongKind value .string)

def flag : Reader Bool
  | .bool b => .ok b
  | value => .error (.wrongKind value .boolean)

def orNull (item : Reader α) : Reader (Option α)
  | .null => .ok none
  | value => (item value).map some

def listOf (item : Reader α) : Reader (List α)
  | .array items => items.mapM item
  | value => .error (.wrongKind value .sequence)

def tableOf (item : Reader α) : Reader (Table String α)
  | .object fields => do
    let entries ← fields.mapM fun (field : String × Value) => do
      return (field.1, ← item field.2)
    return Table.ofList entries
  | value => .error (.wrongKind value .map)

end Reader

/-- A field of a record: its key, and whether a list of fields may end before it. -/
structure Field where
  key : String
  omissible : Bool
  deriving DecidableEq, Repr

/-- The name of a record and its fields in their declared order. -/
structure Layout where
  name : String
  fields : List Field
  deriving Repr

namespace Layout

/-- The index of the first field from `index` on that a list may not end before. -/
def firstDue : Nat → List Field → Option Nat
  | _, [] => none
  | index, field :: rest => if field.omissible then firstDue (index + 1) rest else some index

/-- Reads a record: `set` writes one field into what is read so far. -/
def read (layout : Layout) (set : α → String → Reader α) (start : α) : Reader α
  | .object fields => fields.foldlM (fun record (field : String × Value) => set record field.1 field.2) start
  | .array items => do
    let given := (layout.fields.map (·.key)).zip items
    let record ← given.foldlM (fun record (field : String × Value) => set record field.1 field.2) start
    match firstDue given.length (layout.fields.drop items.length) with
    | some index => throw (.tooShort index layout.name layout.fields.length)
    | none => if layout.fields.length < items.length then throw (.tooLong items.length)
    return record
  | value => .error (.wrongKind value (.struct layout.name))

end Layout

def due (key : String) : Option α → Except Fault α
  | some a => .ok a
  | none => .error (.missingField key)

end ClientForge.Document
