import ClientForge.Failure
import ClientForge.Table
import ClientForge.Text.Split

/-!
Files and directories, without links. A place is the list of names that leads to it from the root.
A path is followed name by name from the root or from the working directory; on the way there, all
that a path may cross is directories.
-/

namespace ClientForge

inductive Entry where
  | directory
  | file (content : ByteArray)

/-- The entries below the root, and the directory from which paths start. -/
structure FileTree where
  entries : Table (List String) Entry
  working : List String

namespace FileTree

/-- What is at a place; the root is a directory. -/
def get? (tree : FileTree) (place : List String) : Option Entry :=
  if place = [] then some .directory else tree.entries.get? place

def put (tree : FileTree) (place : List String) (entry : Entry) : FileTree :=
  { tree with entries := tree.entries.insert place entry }

def startsFromRoot (path : String) : Bool := path.toList.head? = some '/'

/-- The place from which a path is followed. -/
def start (tree : FileTree) (path : String) : List String :=
  if startsFromRoot path then [] else tree.working

/-- The names of a path. Some of them stay where they are: see `staysAt`. -/
def names (path : String) : List String := Text.splitAt '/' path

/-- Whether a name leads nowhere else. -/
def staysAt (name : String) : Bool := name = "" || name = "."

def longestName : Nat := 255

def longestPath : Nat := 4095

/-- Refuses a path that can lead nowhere, whatever the tree holds. -/
def checkPath (path : String) : Except FileFault Unit :=
  if path.toList.contains '\x00' then .error .nulInName
  else if longestPath < path.utf8ByteSize then .error .nameTooLong
  else .ok ()

/-- The place that a name leads to from another place, if it can be there. -/
def child (place : List String) (name : String) : Except FileFault (List String) :=
  if longestName < name.utf8ByteSize then .error .nameTooLong else .ok (place ++ [name])

/-- The place that names lead to. Only the last one may lead to nothing or to a file. -/
def follow (tree : FileTree) : List String → List String → Except FileFault (List String)
  | place, [] => .ok place
  | place, name :: rest =>
    if staysAt name then tree.follow place rest
    else if name = ".." then tree.follow place.dropLast rest
    else do
      let place ← child place name
      match tree.get? place, rest with
      | some .directory, _ => tree.follow place rest
      | _, [] => .ok place
      | some (.file _), _ :: _ => .error .notDirectory
      | none, _ :: _ => .error .notFound

def read (tree : FileTree) (path : String) : Except FileFault String := do
  checkPath path
  if path = "" then throw .notFound
  match tree.get? (← tree.follow (tree.start path) (names path)) with
  | none => throw .notFound
  | some .directory => throw .isDirectory
  | some (.file content) =>
    match String.fromUTF8? content with
    | none => throw .notUtf8
    | some text => return text

/-- Actions on the tree that may fail; what was done before stays done. -/
abbrev Action := ExceptT FileFault (StateM FileTree)

/-- Makes the directories that names lead through and to, and gives the place of the last. Behind a
directory that had to be made (`made`) they are made one at a time, so that a file in the way is one
that already exists; before, only the last name is looked at on its own. -/
def makeBehind (made : Bool) : List String → List String → Action (List String)
  | place, [] => return place
  | place, name :: rest =>
    if staysAt name then makeBehind made place rest
    else if name = ".." then makeBehind made place.dropLast rest
    else do
      let place ← child place name
      match (← get).get? place with
      | some .directory => makeBehind made place rest
      | some (.file _) =>
        throw (if made || rest.all staysAt then .alreadyExists else .notDirectory)
      | none =>
        modify (·.put place .directory)
        makeBehind true place rest

def makeDirectories (place names : List String) : Action (List String) := makeBehind false place names

def write (place : List String) (content : String) : Action Unit := do
  match (← get).get? place with
  | some .directory => throw .isDirectory
  | _ => modify (·.put place (.file content.toUTF8))

/-- Writes a file below a directory, and makes the directories that it is in. -/
def save (directory : String) (segments : List String) (content : String) : Action Unit := do
  checkPath (Text.joinPath directory segments.dropLast)
  let tree ← get
  let place ← makeDirectories (tree.start directory) (names directory ++ segments.dropLast)
  match segments.getLast? with
  | none => throw .isDirectory
  | some name =>
    checkPath (Text.joinPath directory segments)
    write (← child place name) content

end FileTree

end ClientForge
