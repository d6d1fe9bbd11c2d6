import ClientForge.Yaml.Node
import ClientForge.Yaml.Plain

/-!
The data of a YAML document. Keys of mappings are texts, whatever they would denote as values; tags
of the program's own are refused.
-/

namespace ClientForge.Yaml

def coreTag (kind : String) : Tag := Tag.ofText ("tag:yaml.org,2002:" ++ kind)

/-- The name behind the exclamation mark with which the tags of a program's own begin. -/
def ownName? : Option Tag → Option Tag
  | some (mark :: name) => if mark = '!'.toUInt8 then some name else none
  | _ => none

/-- Whether a tag is one of a program's own. One whose name is no text does not count. -/
def isLocalTag (tag : Option Tag) : Bool := (ownName? tag).any Text.isUtf8

/-- The value of a scalar. A tag decides its kind; without one only a plain scalar is anything but a
text. -/
def Scalar.value? (scalar : Scalar) : Option Value :=
  let text := scalar.text.toList
  if isLocalTag scalar.tag then none
  else if scalar.tag = some (coreTag "bool") then (boolOf? text).map .bool
  else if scalar.tag = some (coreTag "int") then
    match integerOf? text with
    | some n => if IntegerSize.of n = .number then some (.number (.integer n)) else none
    | none => none
  else if scalar.tag = some (coreTag "float") then realOf? text
  else if scalar.tag = some (coreTag "null") then if isNullWord text then some .null else none
  else if (scalar.tag = none || (ownName? scalar.tag).isSome) && scalar.isPlain then plainValue? text
  else some (.string scalar.text)

/-- Loading takes a step for each alias, and there is only a number of them. -/
abbrev Loading (α : Type) := StateT Nat Option α

/-- How deep sequences and mappings may stand inside one another. -/
def maxDepth : Nat := 128

/-- The node that an alias stands for; other nodes stand for themselves. -/
def target (anchored : List (Nat × Node)) : Node → Loading Node
  | .alias slot => do
    match ← get with
    | 0 => failure
    | steps + 1 =>
      set steps
      match anchored.lookup slot with
      | some node => return node
      | none => failure
  | node => return node

def keyText (anchored : List (Nat × Node)) (node : Node) : Loading String := do
  match ← target anchored node with
  | .scalar scalar => return scalar.text
  | _ => failure

/-- The value of a node, with at most `depth` sequences and mappings inside one another. -/
def load (anchored : List (Nat × Node)) : Nat → Node → Loading Value
  | 0, node => do
    match ← target anchored node with
    | .scalar scalar => StateT.lift scalar.value?
    | _ => failure
  | depth + 1, node => do
    match ← target anchored node with
    | .scalar scalar => StateT.lift scalar.value?
    | .sequence tag items =>
      if isLocalTag tag then failure
      else return .array (← items.mapM (load anchored depth))
    | .mapping tag pairs =>
      if isLocalTag tag then failure
      else
        let fields ← pairs.foldlM (fun fields (pair : Node × Node) => do
          let key ← keyText anchored pair.1
          let value ← load anchored depth pair.2
          return Table.put key value fields) []
        return .object fields
    | .alias _ => failure

def Tree.value? (tree : Tree) : Option Value :=
  ((load tree.anchored maxDepth tree.root).run (100 * tree.root.size)).map (·.1)

/-- The data of a text; a text without a document is nothing. -/
def valueOf? (text : String) : Option Value := do
  match ← Tree.ofText? text with
  | none => some .null
  | some tree => tree.value?

end ClientForge.Yaml
