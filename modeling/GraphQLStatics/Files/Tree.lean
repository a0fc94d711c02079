import GraphQLStatics.Files.Disk
import GraphQLStatics.Text.Fields

/-!
# File trees

A working directory with all its files, as a value.

## Main Definitions

* `FileTree`, `FileTree.insert`
* `FileTree.resolve`: where a path leads
* `FileTree.read`, `FileTree.source`: the file that a path leads to
* `FileTree.walk`, `FileTree.readFull`, `FileTree.disk`

## Design Notes

A tree is the list of its entries, each under the names that lead to it from
the working directory, which itself has no names and is not listed.  Every
directory on the way to an entry is listed before it.
-/

namespace GraphQLStatics

/-- What stands at a place of a tree. -/
inductive FileNode where
  | file (bytes : List UInt8)
  | directory
  deriving DecidableEq, Repr

/-- Whether a node is a file. -/
def FileNode.isFile : FileNode → Bool
  | .file _ => true
  | .directory => false

/-- A working directory and what it holds. -/
structure FileTree where
  /-- The full path of the working directory. -/
  root : String
  entries : List (List String × FileNode)

namespace FileTree

/-- An empty working directory. -/
def empty (root : String) : FileTree where
  root
  entries := []

/-- What stands at a place. -/
def get? (tree : FileTree) : List String → Option FileNode
  | [] => some .directory
  | names => tree.entries.lookup names

/-- Put a node at a place.  A file takes the place of a file; otherwise what
stands there stays. -/
def put (tree : FileTree) (names : List String) (node : FileNode) : FileTree :=
  match tree.get? names, node with
  | none, _ => { tree with entries := tree.entries ++ [(names, node)] }
  | some (.file _), .file _ =>
    { tree with entries := tree.entries.map fun entry =>
        if entry.1 = names then (names, node) else entry }
  | some _, _ => tree

/-- Put a node where names lead on from a place, and directories on the way to
it. -/
def insertFrom (tree : FileTree) (place : List String) (node : FileNode) :
    List String → FileTree
  | [] => tree.put place node
  | ".." :: rest => (tree.put place .directory).insertFrom place.dropLast node rest
  | name :: rest => (tree.put place .directory).insertFrom (place ++ [name]) node rest

/-- Put a node at the place of a relative path. -/
def insert (tree : FileTree) (path : String) (node : FileNode) : FileTree :=
  tree.insertFrom [] node
    ((Text.fields '/' path).filter fun part => part ≠ "" && part ≠ ".")

/-! ### Paths -/

/-- The full path of a place. -/
def fullPath (tree : FileTree) (names : List String) : String :=
  names.foldl (fun path name => path ++ "/" ++ name) tree.root

/-- The length of the longest name, in bytes. -/
def longestName : Nat := 255

/-- The length of the longest path, in bytes. -/
def longestPath : Nat := 4095

/-- The place above a place.  What is above the working directory is outside
the tree. -/
def above? (names : List String) : Option (List String) :=
  if names.isEmpty then none else some names.dropLast

/-- Whether a file stands at a place. -/
def isFileAt (tree : FileTree) (names : List String) : Bool :=
  (tree.get? names).any FileNode.isFile

/-- Follow one part of a path from a place.  Nothing leads on from a file.
`none` is all that lies outside the tree, where nothing is known to stand. -/
def follow (tree : FileTree) (place : Option (List String)) (part : String) :
    Except WalkFault (Option (List String)) :=
  if place.any tree.isFileAt then .error .notADirectory
  else if part = "" || part = "." then .ok place
  else if part = ".." then .ok (place.bind above?)
  else if longestName < part.utf8ByteSize then .error .nameTooLong
  else
    match place.map (· ++ [part]) with
    | none => .error .missing
    | some next => if (tree.get? next).isSome then .ok (some next) else .error .missing

/-- The place that a path leads to.  A path that begins with a slash begins
outside the tree. -/
def resolve (tree : FileTree) (path : String) : Except WalkFault (List String) := do
  if path = "" then throw .missing
  if longestPath < path.utf8ByteSize then throw .nameTooLong
  let start := if path.toList.head? = some '/' then none else some []
  match ← (Text.fields '/' path).foldlM tree.follow start with
  | none => throw .missing
  | some names => return names

/-! ### Reading and walking -/

/-- The text of the file that a path leads to. -/
def read (tree : FileTree) (path : String) : Except ReadFailure String :=
  match (tree.resolve path).toOption.bind tree.get? with
  | some (.file bytes) => textOfBytes path bytes
  | _ => .error (.notAFile path)

/-- The file that a path leads to. -/
def source (tree : FileTree) (path : String) : SourceFile where
  path
  text := tree.read path

/-- The text of the file at a full path. -/
def readFull (tree : FileTree) (path : String) : Except ReadFailure String :=
  match tree.entries.find? fun (names, _) => tree.fullPath names = path with
  | some (_, .file bytes) => textOfBytes path bytes
  | _ => .error (.notAFile path)

/-- A place as a walk meets it. -/
def entryAt (tree : FileTree) (names : List String) (isFile : Bool) : Entry where
  name := names.getLastD ""
  path := tree.fullPath names
  isFile

/-- What is at or under a path. -/
def walk (tree : FileTree) (path : String) : Except WalkFault (List Entry) := do
  let names ← tree.resolve path
  match tree.get? names with
  | none => throw .missing
  | some (.file _) => return [tree.entryAt names true]
  | some .directory =>
    let below := tree.entries.filter fun (key, _) => names.isPrefixOf key && key ≠ names
    return tree.entryAt names false :: below.map fun (key, node) => tree.entryAt key node.isFile

/-- The tree as a disk. -/
def disk (tree : FileTree) : Disk Id where
  walk := tree.walk
  read := tree.readFull

end FileTree

end GraphQLStatics
