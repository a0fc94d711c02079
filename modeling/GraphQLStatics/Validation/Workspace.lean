import GraphQLStatics.Document.Basic
import GraphQLStatics.OrderedMap
import GraphQLStatics.Validation.Violation

/-!
# Workspaces

A `Workspace` is what a check of a document writes to: the violations found,
an index of the document's fragments, and scratch that the rules share.  It is
used for one document after another, and reset in between.

## Main Definitions

* `Mark`, `Workspace`
* `Workspace.bindTo`, `Workspace.fragment?`: the index of a document's fragments
* `Workspace.clearScratch`, `Workspace.reset`, `Workspace.isClean`
-/

namespace GraphQLStatics

/-- How far a walk along fragment spreads has come with a fragment. -/
inductive Mark where
  | unvisited
  | inProgress
  | done
  deriving DecidableEq, Repr

/-- What a check of a document writes to. -/
structure Workspace where
  violations : List Violation
  /-- The index, among the definitions of the document, of each fragment. -/
  fragmentIndex : OrderedMap Nat
  /-- How often the workspace was reset, modulo `2 ^ 64`. -/
  generation : UInt64
  /-- Names met before. -/
  names : List String
  /-- The fragments on the way to the spread being looked at. -/
  spreadPath : List String
  marks : OrderedMap Mark
  /-- The fragments reached by spreads. -/
  visited : List String

namespace Workspace

/-- A workspace that was never used. -/
def fresh : Workspace where
  violations := []
  fragmentIndex := .empty
  generation := 0
  names := []
  spreadPath := []
  marks := .empty
  visited := []

/-- Whether a workspace holds nothing from an earlier use. -/
def isClean (w : Workspace) : Bool :=
  w.violations.isEmpty && w.fragmentIndex.entries.isEmpty && w.names.isEmpty &&
    w.spreadPath.isEmpty && w.marks.entries.isEmpty && w.visited.isEmpty

/-- Forget what the rules keep for themselves. -/
def clearScratch (w : Workspace) : Workspace :=
  { w with names := [], spreadPath := [], marks := .empty, visited := [] }

/-- Forget everything but the generation, which is counted up. -/
def reset (w : Workspace) : Workspace :=
  { w.clearScratch with
    violations := []
    fragmentIndex := .empty
    generation := w.generation + 1 }

/-- Note a violation. -/
def report (w : Workspace) (v : Violation) : Workspace :=
  { w with violations := w.violations ++ [v] }

/-! ### Fragments of the document -/

/-- The fragments of a document by name, with their indices among its
definitions. -/
def indexEntries (doc : Document) : List (String × Nat) :=
  doc.definitions.zipIdx.filterMap fun (definition, i) =>
    definition.fragment?.map fun frag => (frag.name, i)

/-- Index the fragments of a document.  Of two with one name the later
counts. -/
def bindTo (w : Workspace) (doc : Document) : Workspace :=
  { w with fragmentIndex := .ofList (indexEntries doc) }

/-- The fragment that a spread of the name stands for. -/
def fragment? (w : Workspace) (doc : Document) (name : String) : Option Fragment :=
  ((w.fragmentIndex.find? name).bind fun i => doc.definitions[i]?).bind Definition.fragment?

/-! ### Scratch -/

/-- Forget the names met before. -/
def clearNames (w : Workspace) : Workspace :=
  { w with names := [] }

/-- Whether a name was met before. -/
def hasName (w : Workspace) (name : String) : Bool :=
  w.names.contains name

/-- Remember a name. -/
def addName (w : Workspace) (name : String) : Workspace :=
  if w.hasName name then w else { w with names := w.names ++ [name] }

/-- Forget the fragments reached. -/
def clearVisited (w : Workspace) : Workspace :=
  { w with visited := [] }

/-- Whether a fragment was reached. -/
def isVisited (w : Workspace) (name : String) : Bool :=
  w.visited.contains name

/-- Note that a fragment is reached. -/
def addVisited (w : Workspace) (name : String) : Workspace :=
  if w.isVisited name then w else { w with visited := w.visited ++ [name] }

/-- The mark of a fragment. -/
def mark (w : Workspace) (name : String) : Mark :=
  (w.marks.find? name).getD .unvisited

/-- Give a fragment a mark. -/
def setMark (w : Workspace) (name : String) (m : Mark) : Workspace :=
  { w with marks := w.marks.insert name m }

/-- Lengthen the path by a fragment. -/
def pushSpread (w : Workspace) (name : String) : Workspace :=
  { w with spreadPath := w.spreadPath ++ [name] }

/-- Shorten the path by its last fragment. -/
def popSpread (w : Workspace) : Workspace :=
  { w with spreadPath := w.spreadPath.dropLast }

end Workspace

end GraphQLStatics
