import ClientForge.Config
import ClientForge.Yaml.Load

/-!
Reading a configuration from its text. Every scalar is the text that it is written as; an entry may
stand once, and other entries do not count. An empty text says nothing.
-/

namespace ClientForge.Config

open Yaml

def textOf (anchored : List (Nat × Node)) (node : Node) : Loading String := keyText anchored node

/-- Texts; nothing at all is none of them. -/
def textsOf (anchored : List (Nat × Node)) (node : Node) : Loading (List String) := do
  match ← target anchored node with
  | .sequence _ items => items.mapM (textOf anchored)
  | .scalar scalar => if scalar.text = "" && scalar.isPlain then return [] else failure
  | _ => failure

def set (anchored : List (Nat × Node)) (config : Config) (key : String) (node : Node) :
    Loading Config := do
  match key with
  | "document" => return { config with document := ← textOf anchored node }
  | "output" => return { config with output := ← textOf anchored node }
  | "base_package" => return { config with basePackage := ← textOf anchored node }
  | "operations" => return { config with operations := ← textsOf anchored node }
  | "modules" => return { config with modules := ← textsOf anchored node }
  | _ => return config

def entryNames : List String := ["document", "output", "base_package", "operations", "modules"]

/-- Reads entries behind those with the names `seen`. -/
def readEntries (anchored : List (Nat × Node)) :
    List String → Config → List (Node × Node) → Loading Config
  | _, config, [] => return config
  | seen, config, (keyNode, node) :: rest => do
    let key ← keyText anchored keyNode
    if entryNames.contains key && seen.contains key then failure
    let config ← set anchored config key node
    readEntries anchored (key :: seen) config rest

def ofTree? (tree : Tree) : Option Config :=
  let reading : Loading Config := do
    match tree.root with
    | .mapping _ pairs => readEntries tree.anchored [] standard pairs
    | .scalar scalar => if scalar.text = "" && scalar.isPlain then return standard else failure
    | _ => failure
  (reading.run (100 * tree.root.size)).map (·.1)

def parse? (text : String) : Option Config := do
  match ← Tree.ofText? text with
  | none => some standard
  | some tree => ofTree? tree

end ClientForge.Config
