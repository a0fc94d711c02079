import GraphQLStatics.Validation.Traversal

/-!
# Fragments

Names of fragments are unique, their type conditions name composite types,
spreads stand for defined fragments and can apply where they stand, every
fragment is used, and spreads form no cycle.

## Main Definitions

* `checkNames`, `checkConditions`, `checkSelections`, `checkUsage`
* `CycleWalk`, `CycleWalk.step`: the walk along spreads
* `checkCycles`
* `checkFragments`

## Design Notes

The walk along spreads keeps its own stack of fragments, each with the spreads
still to be looked at.  A fragment is entered only if it is unvisited and is
then marked, so the number of steps is bounded by the number of fragments and
spreads.
-/

namespace GraphQLStatics

/-! ### Names -/

/-- Check that a fragment's name is not that of an earlier one. -/
def checkName (doc : Document) (w : Workspace) (frag : Fragment) : Workspace :=
  if w.hasName frag.name then
    w.report (.fragmentNameNotUnique frag.name (doc.place frag.position))
  else w.addName frag.name

/-- Check the names of all fragments. -/
def checkNames (doc : Document) (w : Workspace) : Workspace :=
  doc.fragments.foldl (checkName doc) w.clearNames

/-! ### Type conditions and spreads -/

/-- Check that a type condition names a composite type. -/
def checkCondition (schema : Schema) (doc : Document) (position : Position) (name : String)
    (w : Workspace) : Workspace :=
  match schema.type? name with
  | none => w.report (.conditionUnknown name (doc.place position))
  | some t =>
    if t.isComposite then w else w.report (.conditionNotComposite name (doc.place position))

/-- Check the type conditions of all fragments. -/
def checkConditions (schema : Schema) (doc : Document) (w : Workspace) : Workspace :=
  doc.fragments.foldl (fun w frag => checkCondition schema doc frag.position frag.condition w) w

/-- Check that selections on the type `condition` can apply within selections on
the type `scope`, if both are known and composite. -/
def checkPossible (schema : Schema) (doc : Document) (position : Position)
    (fragment : Option String) (scope condition : Option TypeDef) (w : Workspace) : Workspace :=
  match scope, condition with
  | some scope, some condition =>
    if scope.isComposite && condition.isComposite && !schema.overlap scope condition then
      w.report (.spreadNotPossible fragment scope.name condition.name (doc.place position))
    else w
  | _, _ => w

/-- Check a selection. -/
def checkSelection (schema : Schema) (doc : Document) (w : Workspace) (visit : Visit) :
    Workspace :=
  match visit.selection with
  | .field _ _ => w
  | .spread f =>
    match w.fragment? doc f.fragment with
    | none => w.report (.spreadTargetUndefined f.fragment (doc.place f.position))
    | some target =>
      checkPossible schema doc f.position (some f.fragment) visit.scope
        (schema.fragmentScope target) w
  | .inline f _ =>
    match f.condition with
    | none => w
    | some name =>
      checkPossible schema doc f.position none visit.scope (schema.type? name)
        (checkCondition schema doc f.position name w)

/-- Check the selections of all operations, and then those of all fragments. -/
def checkSelections (schema : Schema) (doc : Document) (w : Workspace) : Workspace :=
  (doc.walk schema).foldl (checkSelection schema doc) w

/-! ### Usage -/

/-- Mark the fragments reached from any operation. -/
def markUsed (doc : Document) (w : Workspace) : Workspace :=
  doc.operations.foldl (fun w op => (reachable doc op.selections w).2) w.clearVisited

/-- Check that a fragment is marked. -/
def checkUsed (doc : Document) (w : Workspace) (frag : Fragment) : Workspace :=
  if w.isVisited frag.name then w
  else w.report (.fragmentNotUsed frag.name (doc.place frag.position))

/-- Check that every fragment is reached from some operation. -/
def checkUsage (doc : Document) (w : Workspace) : Workspace :=
  doc.fragments.foldl (checkUsed doc) (markUsed doc w)

/-! ### Cycles -/

/-- A fragment on the way, with its spreads that are still to be looked at. -/
structure CycleFrame where
  fragment : Fragment
  pending : List SpreadUse

/-- The state of a walk along spreads; the innermost fragment comes first. -/
structure CycleWalk where
  frames : List CycleFrame
  workspace : Workspace

namespace CycleWalk

/-- Go into a fragment. -/
def enter (walk : CycleWalk) (frag : Fragment) : CycleWalk where
  frames := ⟨frag, frag.selections.spreads⟩ :: walk.frames
  workspace := (walk.workspace.setMark frag.name .inProgress).pushSpread frag.name

/-- The names from a fragment on the path to the path's end, and that fragment
again. -/
def cyclePath (w : Workspace) (name : String) : List String :=
  w.spreadPath.drop ((w.spreadPath.idxOf? name).getD 0) ++ [name]

/-- Look at a spread.  If its fragment is on the path it closes a cycle. -/
def follow (doc : Document) (walk : CycleWalk) (spread : SpreadUse) : CycleWalk :=
  let w := walk.workspace
  match w.mark spread.fragment with
  | .done => walk
  | .inProgress =>
    { walk with
      workspace := w.report (.fragmentCycle spread.fragment (cyclePath w spread.fragment)
        (doc.place spread.position)) }
  | .unvisited =>
    match w.fragment? doc spread.fragment with
    | some target => walk.enter target
    | none => walk

/-- Look at the next spread of the innermost fragment, or leave the fragment if
it has none. -/
def step (doc : Document) (walk : CycleWalk) : CycleWalk :=
  match walk.frames with
  | [] => walk
  | ⟨frag, []⟩ :: rest =>
    { frames := rest, workspace := walk.workspace.popSpread.setMark frag.name .done }
  | ⟨frag, spread :: pending⟩ :: rest =>
    follow doc { walk with frames := ⟨frag, pending⟩ :: rest } spread

/-- Walk for at most `n` steps. -/
def run (doc : Document) : Nat → CycleWalk → CycleWalk
  | 0, walk => walk
  | n + 1, walk => if walk.frames.isEmpty then walk else run doc n (walk.step doc)

end CycleWalk

/-- Walk along the spreads from a fragment on. -/
def walkFrom (doc : Document) (frag : Fragment) (w : Workspace) : Workspace :=
  let start : CycleWalk := { frames := [], workspace := w }
  ((start.enter frag).run doc (doc.spreadCount + doc.fragments.length)).workspace

/-- Look for cycles from a fragment's name on, unless it was visited. -/
def checkCycle (doc : Document) (w : Workspace) (frag : Fragment) : Workspace :=
  match w.mark frag.name with
  | .unvisited =>
    match w.fragment? doc frag.name with
    | some target => walkFrom doc target w
    | none => w
  | _ => w

/-- Check that spreads form no cycle. -/
def checkCycles (doc : Document) (w : Workspace) : Workspace :=
  doc.fragments.foldl (checkCycle doc) w

/-! ### The rule -/

/-- Check the fragments of a document. -/
def checkFragments (schema : Schema) (doc : Document) (w : Workspace) : Workspace :=
  checkCycles doc (checkUsage doc
    (checkSelections schema doc (checkConditions schema doc (checkNames doc w))))

end GraphQLStatics
