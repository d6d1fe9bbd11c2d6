import ClientForge.Yaml.Token.Stream

/-!
The nodes of a YAML document. An alias refers to an anchored node by the anchor's slot: anchors with
different names get successive slots, and an anchor that is declared again gets the next slot, which
a later new name may take over.
-/

namespace ClientForge.Yaml

/-- A scalar: its text, its tag, and whether it stands without quotes. -/
structure Scalar where
  text : String
  tag : Option Tag
  isPlain : Bool
  deriving DecidableEq, Repr

inductive Node where
  | scalar (scalar : Scalar)
  | sequence (tag : Option Tag) (items : List Node)
  | mapping (tag : Option Tag) (pairs : List (Node × Node))
  | alias (slot : Nat)
  deriving Repr

namespace Node

instance : Inhabited Node := ⟨.scalar ⟨"", none, true⟩⟩

mutual

/-- How many beginnings and ends of nodes there are in a node. -/
def size : Node → Nat
  | .scalar _ => 1
  | .alias _ => 1
  | .sequence _ items => sizeOfItems items + 2
  | .mapping _ pairs => sizeOfPairs pairs + 2

def sizeOfItems : List Node → Nat
  | [] => 0
  | item :: rest => size item + sizeOfItems rest

def sizeOfPairs : List (Node × Node) → Nat
  | [] => 0
  | (key, value) :: rest => size key + size value + sizeOfPairs rest

end

end Node

/-- A document: its root, and the anchored node of each slot. -/
structure Tree where
  root : Node
  anchored : List (Nat × Node)

/-- The meaning of tag handles. -/
abbrev Handles := List (String × Tag)

def Handles.standard : Handles :=
  [("!", Tag.ofText "!"), ("!!", Tag.ofText "tag:yaml.org,2002:")]

/-- What is known while nodes are read: the tokens that are left; the slot of each anchor's name;
for each slot, last first, the number of the node that it was given to; and the nodes by number. -/
structure NodeState where
  tokens : List Token
  slots : List (String × Nat)
  owners : List (Nat × Nat)
  nodes : List (Nat × Node)
  declared : Nat

/-- Reading nodes; it fails where the tokens are none. -/
abbrev Reading (α : Type) := StateT NodeState Option α

namespace Reading

def peek : Reading (Option Token) := return (← get).tokens.head?

def advance : Reading Unit := modify fun state => { state with tokens := state.tokens.tail }

def nextIn (tokens : List Token) : Reading Bool := return (← peek).any tokens.contains

def accept (token : Token) : Reading Bool := do
  if (← peek) = some token then
    advance
    return true
  else return false

/-- Gives an anchor its slot, and the number of the node that it is for. -/
def declare (name : String) : Reading Nat := do
  let state ← get
  let slot := state.slots.length
  let slots := (name, slot) :: state.slots.filter (·.1 ≠ name)
  set { state with
    slots, owners := (slot, state.declared) :: state.owners, declared := state.declared + 1 }
  return state.declared

/-- Keeps a node under its number. -/
def keep (number : Option Nat) (node : Node) : Reading Node := do
  if let some number := number then
    modify fun state => { state with nodes := (number, node) :: state.nodes }
  return node

def aliasOf (name : String) : Reading Node := do
  match (← get).slots.lookup name with
  | some slot => return .alias slot
  | none => failure

def anchor? : Reading (Option Nat) := do
  match ← peek with
  | some (.anchor name) =>
    advance
    return some (← declare name)
  | _ => return none

def tag? (handles : Handles) : Reading (Option Tag) := do
  match ← peek with
  | some (.tag handle suffix) =>
    advance
    if handle = "" then return some suffix
    match handles.lookup handle with
    | some expansion => return some (expansion ++ suffix)
    | none => failure
  | _ => return none

def emptyNode : Node := .scalar ⟨"", none, true⟩

/-- Where a node stands: inside brackets, in a block, or as a key or value of a block, where the
entries of a sequence need not be indented. -/
inductive Place where
  | flow
  | block
  | blockPair
  deriving DecidableEq

mutual

/-- Reads a node. Every function of this group takes a `depth` that bounds how often they call one
another. -/
def node (handles : Handles) : Nat → Place → Reading Node
  | 0, _ => failure
  | depth + 1, place => do
    if let some (.alias name) ← peek then
      advance
      return ← aliasOf name
    let anchor ← anchor?
    let tag ← tag? handles
    let anchor ← if anchor.isNone then anchor? else pure anchor
    let token ← peek
    match token with
    | some (.scalar text isPlain) =>
      advance
      keep anchor (.scalar ⟨text, tag, isPlain⟩)
    | some .flowSequenceStart =>
      advance
      keep anchor (.sequence tag (← flowItems handles depth true))
    | some .flowMappingStart =>
      advance
      keep anchor (.mapping tag (← flowPairs handles depth true))
    | _ =>
      if place = .blockPair && token = some .blockEntry then
        keep anchor (.sequence tag (← looseItems handles depth))
      else if place ≠ .flow && token = some .blockSequenceStart then
        advance
        keep anchor (.sequence tag (← blockItems handles depth))
      else if place ≠ .flow && token = some .blockMappingStart then
        advance
        keep anchor (.mapping tag (← blockPairs handles depth))
      else if anchor.isSome || tag.isSome then keep anchor (.scalar ⟨"", tag, true⟩)
      else failure

/-- Reads a node unless one of these tokens comes first, which leaves it empty. -/
def nodeUnless (handles : Handles) : Nat → Place → List Token → Reading Node
  | 0, _, _ => failure
  | depth + 1, place, stops => do
    if ← nextIn stops then return emptyNode else node handles depth place

def blockItems (handles : Handles) : Nat → Reading (List Node)
  | 0 => failure
  | depth + 1 => do
    if ← accept .blockEntry then
      let item ← nodeUnless handles depth .block [.blockEntry, .blockEnd]
      return item :: (← blockItems handles depth)
    else if ← accept .blockEnd then return []
    else failure

/-- Reads the entries of a sequence that is not indented. -/
def looseItems (handles : Handles) : Nat → Reading (List Node)
  | 0 => failure
  | depth + 1 => do
    if ← accept .blockEntry then
      let item ← nodeUnless handles depth .block [.blockEntry, .key, .value, .blockEnd]
      return item :: (← looseItems handles depth)
    else return []

def blockPairs (handles : Handles) : Nat → Reading (List (Node × Node))
  | 0 => failure
  | depth + 1 => do
    if ← accept .key then
      let key ← nodeUnless handles depth .blockPair [.key, .value, .blockEnd]
      let value ← if ← accept .value then
          nodeUnless handles depth .blockPair [.key, .value, .blockEnd]
        else pure emptyNode
      return (key, value) :: (← blockPairs handles depth)
    else if ← accept .blockEnd then return []
    else failure

/-- Reads the items of a sequence in brackets. A pair among them is a mapping of its own. -/
def flowItems (handles : Handles) : Nat → Bool → Reading (List Node)
  | 0, _ => failure
  | depth + 1, isFirst => do
    if ← accept .flowSequenceEnd then return []
    if !isFirst then
      if !(← accept .flowEntry) then failure
    if ← accept .flowSequenceEnd then return []
    let item ← if ← accept .key then
        Node.mapping none <$> flowPair handles depth
      else node handles depth .flow
    return item :: (← flowItems handles depth false)

/-- Reads a pair among the items of a sequence in brackets. A missing key takes the token in its
place with it. -/
def flowPair (handles : Handles) : Nat → Reading (List (Node × Node))
  | 0 => failure
  | depth + 1 => do
    let stops : List Token := [.value, .flowEntry, .flowSequenceEnd]
    let key ← if ← nextIn stops then
        advance
        pure emptyNode
      else node handles depth .flow
    let value ← if ← accept .value then
        nodeUnless handles depth .flow [.flowEntry, .flowSequenceEnd]
      else pure emptyNode
    return [(key, value)]

def flowPairs (handles : Handles) : Nat → Bool → Reading (List (Node × Node))
  | 0, _ => failure
  | depth + 1, isFirst => do
    if ← accept .flowMappingEnd then return []
    if !isFirst then
      if !(← accept .flowEntry) then failure
    if ← accept .flowMappingEnd then return []
    let pair ← if ← accept .key then do
        let key ← nodeUnless handles depth .flow [.value, .flowEntry, .flowMappingEnd]
        let value ← if ← accept .value then
            nodeUnless handles depth .flow [.flowEntry, .flowMappingEnd]
          else pure emptyNode
        pure (key, value)
      else do
        let key ← node handles depth .flow
        pure (key, emptyNode)
    return pair :: (← flowPairs handles depth false)

end

/-- Reads the directives before a document, on from the handles and the version found so far. A
handle has one meaning, and a version is given once. -/
def directives : Nat → Handles → Bool → Reading Handles
  | 0, _, _ => failure
  | count + 1, handles, hasVersion => do
    match ← peek with
    | some (.version major minor) =>
      if hasVersion || major ≠ 1 || (minor ≠ 1 && minor ≠ 2) then failure
      advance
      directives count handles true
    | some (.tagHandle handle expansion) =>
      if (handles.lookup handle).isSome then failure
      advance
      directives count ((handle, expansion) :: handles) hasVersion
    | _ => return handles

/-- Whether a token ends a document or begins another one. -/
def isBoundary : Token → Bool
  | .version _ _ => true
  | .tagHandle _ _ => true
  | .documentStart => true
  | .documentEnd => true
  | .streamEnd => true
  | _ => false

def skipEnds : Nat → Reading Unit
  | 0 => return ()
  | count + 1 => do
    if ← accept .documentEnd then skipEnds count

/-- Reads a text of one document; a text without any is none. `count` bounds its tokens. -/
def document (count : Nat) : Reading (Option Node) := do
  let first ← peek
  if first = some .streamEnd then return none
  let root ←
    if first.any fun token => isBoundary token && token ≠ .documentEnd then do
      let declared ← directives count [] false
      if !(← accept .documentStart) then failure
      if (← peek).any isBoundary then pure emptyNode
      else node (declared ++ Handles.standard) (8 * count + 8) .block
    else node Handles.standard (8 * count + 8) .block
  skipEnds count
  if (← peek) ≠ some .streamEnd then failure
  return some root

end Reading

/-- The document that tokens make up. It may be missing, and there may not be a second one. -/
def Tree.ofTokens? (tokens : List Token) : Option (Option Tree) := do
  let (root, state) ← (Reading.document tokens.length).run ⟨tokens, [], [], [], 0⟩
  return root.map fun root =>
    { root
      anchored := state.owners.filterMap fun (slot, number) =>
        (state.nodes.lookup number).map fun node => (slot, node) }

def Tree.ofText? (text : String) : Option (Option Tree) :=
  (Token.ofText? text.toList).bind Tree.ofTokens?

end ClientForge.Yaml
