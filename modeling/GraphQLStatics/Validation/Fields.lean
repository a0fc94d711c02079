import GraphQLStatics.Validation.Traversal

/-!
# Fields

Every selected field is defined on the type that it is selected on.

## Main Definitions

* `isMetaField`: fields that need no definition
* `checkFields`
-/

namespace GraphQLStatics

/-- Whether a field can be selected on a type without being defined there: the
type's name everywhere, and the entries to introspection on the root type of
queries. -/
def isMetaField (schema : Schema) (scope : TypeDef) (name : String) : Bool :=
  name = "__typename" ||
    ((name = "__schema" || name = "__type") &&
      schema.queryType?.map TypeDef.name = some scope.name)

/-- Check a field that is selected on a composite type. -/
def checkFieldOn (schema : Schema) (doc : Document) (scope : TypeDef) (f : FieldUse)
    (w : Workspace) : Workspace :=
  let place := doc.place f.position
  if isMetaField schema scope f.name then w
  else if scope.isUnion then w.report (.fieldOnUnion f.name scope.name place)
  else if (scope.field? f.name).isNone then w.report (.fieldDoesNotExist f.name scope.name place)
  else w

/-- Check a selection. -/
def checkField (schema : Schema) (doc : Document) (w : Workspace) (visit : Visit) : Workspace :=
  match visit.selection, visit.scope with
  | .field f _, some scope =>
    if scope.isComposite then checkFieldOn schema doc scope f w else w
  | _, _ => w

/-- Check the fields of all operations, and then those of all fragments. -/
def checkFields (schema : Schema) (doc : Document) (w : Workspace) : Workspace :=
  (doc.walk schema).foldl (checkField schema doc) w

end GraphQLStatics
