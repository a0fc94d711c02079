import GraphQLStatics.Language.Value
import GraphQLStatics.Text.Position

/-!
# Selections

Fields, fragment spreads and inline fragments, and the sets they form.

## Main Definitions

* `DirectiveUse`, `FieldUse`, `SpreadUse`, `InlineUse`
* `SelectionSet`: selections in document order
* `Selection`, `SelectionSet.toList`, `SelectionSet.ofList`
* `SelectionSet.preorder`: every selection at any depth
* `SelectionSet.spreads`: every fragment spread at any depth

## Design Notes

A selection set is one inductive type in which a selection holds its own
sub-selections and the selections after it, so that functions on selections
are structural recursions.  `Selection` is a selection without those after it.
-/

namespace GraphQLStatics

/-- A directive applied to some element, with its arguments as written. -/
structure DirectiveUse where
  position : Position
  name : String
  arguments : List (String × Value)

/-- A selected field, apart from its sub-selections. -/
structure FieldUse where
  position : Position
  aliasName : Option String
  name : String
  arguments : List (String × Value)
  directives : List DirectiveUse

/-- A spread of a named fragment. -/
structure SpreadUse where
  position : Position
  fragment : String
  directives : List DirectiveUse

/-- An inline fragment, apart from its selections. -/
structure InlineUse where
  position : Position
  condition : Option String
  directives : List DirectiveUse

/-- Selections in document order. -/
inductive SelectionSet where
  | nil
  | field (use : FieldUse) (sub : SelectionSet) (rest : SelectionSet)
  | spread (use : SpreadUse) (rest : SelectionSet)
  | inline (use : InlineUse) (sub : SelectionSet) (rest : SelectionSet)

/-- A single selection with its sub-selections. -/
inductive Selection where
  | field (use : FieldUse) (sub : SelectionSet)
  | spread (use : SpreadUse)
  | inline (use : InlineUse) (sub : SelectionSet)

namespace Selection

/-- The directives applied to a selection. -/
def directives : Selection → List DirectiveUse
  | .field use _ => use.directives
  | .spread use => use.directives
  | .inline use _ => use.directives

end Selection

namespace SelectionSet

/-- The set with one more selection in front. -/
def cons (head : Selection) (rest : SelectionSet) : SelectionSet :=
  match head with
  | .field use sub => .field use sub rest
  | .spread use => .spread use rest
  | .inline use sub => .inline use sub rest

/-- The selections of a set, without those below them. -/
def toList : SelectionSet → List Selection
  | .nil => []
  | .field use sub rest => .field use sub :: rest.toList
  | .spread use rest => .spread use :: rest.toList
  | .inline use sub rest => .inline use sub :: rest.toList

/-- The set of the given selections. -/
def ofList (selections : List Selection) : SelectionSet :=
  selections.foldr cons .nil

/-- Every selection at any depth, each before those below it. -/
def preorder : SelectionSet → List Selection
  | .nil => []
  | .field use sub rest => .field use sub :: (sub.preorder ++ rest.preorder)
  | .spread use rest => .spread use :: rest.preorder
  | .inline use sub rest => .inline use sub :: (sub.preorder ++ rest.preorder)

/-- Every fragment spread at any depth, in document order. -/
def spreads : SelectionSet → List SpreadUse
  | .nil => []
  | .field _ sub rest => sub.spreads ++ rest.spreads
  | .spread use rest => use :: rest.spreads
  | .inline _ sub rest => sub.spreads ++ rest.spreads

@[simp] theorem toList_ofList (selections : List Selection) :
    (ofList selections).toList = selections := by
  induction selections with
  | nil => rfl
  | cons head rest ih =>
    cases head <;> simpa [ofList, cons, toList] using ih

end SelectionSet

end GraphQLStatics
