import GraphQLStatics.Schema.Basic
import GraphQLStatics.Validation.Workspace

/-!
# Traversals

The ways in which rules go through a document.

## Main Definitions

* `Visit`, `SelectionSet.walk`: every selection with the type it is made on
* `DirectiveSite`, `Document.directiveSites`: every list of directives
* `ArgumentUse`, `SelectionSet.arguments`: every argument with the parameter it
  is for
* `Occurrence`, `Value.occurrences`: every variable within a value
* `reachable`: the fragments reached by spreads
* `operationArguments`: every argument in the scope of an operation

## Design Notes

Only `reachable`, and what is built on it, follows spreads of named fragments.
-/

namespace GraphQLStatics

/-! ### Selections and their scopes -/

/-- A selection and the type of the selection set that holds it, if that is
known. -/
structure Visit where
  selection : Selection
  scope : Option TypeDef

namespace Schema

/-- The type that a field's sub-selections are made on. -/
def fieldScope (schema : Schema) (scope : Option TypeDef) (f : FieldUse) : Option TypeDef :=
  (scope.bind (·.field? f.name)).bind fun field => schema.type? field.type.innermostName

/-- The type that an inline fragment's selections are made on. -/
def inlineScope (schema : Schema) (scope : Option TypeDef) (f : InlineUse) : Option TypeDef :=
  match f.condition with
  | some name => schema.type? name
  | none => scope

/-- The type that a fragment's selections are made on. -/
def fragmentScope (schema : Schema) (frag : Fragment) : Option TypeDef :=
  schema.type? frag.condition

end Schema

/-- Every selection at any depth, each before those below it, with its scope.
Below a field that its scope does not define the scope is unknown. -/
def SelectionSet.walk (schema : Schema) : SelectionSet → Option TypeDef → List Visit
  | .nil, _ => []
  | .field f sub rest, scope =>
    ⟨.field f sub, scope⟩ :: (walk schema sub (schema.fieldScope scope f) ++ walk schema rest scope)
  | .spread f rest, scope => ⟨.spread f, scope⟩ :: walk schema rest scope
  | .inline f sub rest, scope =>
    ⟨.inline f sub, scope⟩ ::
      (walk schema sub (schema.inlineScope scope f) ++ walk schema rest scope)

/-- The selections of an operation with their scopes. -/
def Operation.walk (schema : Schema) (op : Operation) : List Visit :=
  op.selections.walk schema (schema.root? op.kind)

/-- The selections of a fragment with their scopes. -/
def Fragment.walk (schema : Schema) (frag : Fragment) : List Visit :=
  frag.selections.walk schema (schema.fragmentScope frag)

/-- The selections of all operations, and then those of all fragments. -/
def Document.walk (schema : Schema) (doc : Document) : List Visit :=
  doc.operations.flatMap (Operation.walk schema) ++ doc.fragments.flatMap (Fragment.walk schema)

/-! ### Directives -/

/-- The directives applied to one element, and the kind of that element. -/
structure DirectiveSite where
  location : DirectiveLocation
  directives : List DirectiveUse

/-- The location of an operation. -/
def OperationKind.location : OperationKind → DirectiveLocation
  | .query => .query
  | .mutation => .mutation
  | .subscription => .subscription

/-- The directives of every selection at any depth, in document order. -/
def SelectionSet.directiveSites : SelectionSet → List DirectiveSite
  | .nil => []
  | .field f sub rest =>
    ⟨.field, f.directives⟩ :: (sub.directiveSites ++ rest.directiveSites)
  | .spread f rest => ⟨.fragmentSpread, f.directives⟩ :: rest.directiveSites
  | .inline f sub rest =>
    ⟨.inlineFragment, f.directives⟩ :: (sub.directiveSites ++ rest.directiveSites)

/-- The directives of a definition and of its selections.  Those of the type
system are passed over. -/
def Definition.directiveSites : Definition → List DirectiveSite
  | .operation op => ⟨op.kind.location, op.directives⟩ :: op.selections.directiveSites
  | .fragment frag => ⟨.fragmentDefinition, frag.directives⟩ :: frag.selections.directiveSites
  | .typeSystem _ => []

/-- The directives of a document, in order. -/
def Document.directiveSites (doc : Document) : List DirectiveSite :=
  doc.definitions.flatMap Definition.directiveSites

/-! ### Arguments -/

/-- A position that a value can flow into. -/
structure InputPosition where
  type : TypeRef
  hasDefault : Bool
  deriving DecidableEq, Repr

/-- The position that a parameter declares. -/
def Parameter.position (p : Parameter) : InputPosition :=
  ⟨p.type, p.default.isSome⟩

/-- An argument as it is written, with the position that it flows into if the
schema defines it. -/
structure ArgumentUse where
  position : Position
  value : Value
  target : Option InputPosition

/-- The arguments of one element, which is given by its position and its
parameters. -/
def argumentUses (position : Position) (parameters : Option (OrderedMap Parameter))
    (arguments : List (String × Value)) : List ArgumentUse :=
  arguments.map fun (name, value) =>
    { position, value, target := (parameters.bind (·.find? name)).map Parameter.position }

/-- The arguments of a directive. -/
def DirectiveUse.argumentUses (schema : Schema) (d : DirectiveUse) : List ArgumentUse :=
  GraphQLStatics.argumentUses d.position ((schema.directive? d.name).map (·.parameters)) d.arguments

/-- The arguments of some directives. -/
def directiveArguments (schema : Schema) (ds : List DirectiveUse) : List ArgumentUse :=
  ds.flatMap (DirectiveUse.argumentUses schema)

/-- The arguments of a selection: those of a field, and then those of its
directives. -/
def Visit.arguments (schema : Schema) (visit : Visit) : List ArgumentUse :=
  match visit.selection with
  | .field f _ =>
    argumentUses f.position ((visit.scope.bind (·.field? f.name)).map (·.parameters))
      f.arguments ++ directiveArguments schema f.directives
  | .spread f => directiveArguments schema f.directives
  | .inline f _ => directiveArguments schema f.directives

/-- The arguments within a selection set. -/
def SelectionSet.arguments (schema : Schema) (set : SelectionSet) (scope : Option TypeDef) :
    List ArgumentUse :=
  (set.walk schema scope).flatMap (Visit.arguments schema)

/-! ### Variables within values -/

/-- A variable within a value, with the position that it flows into. -/
structure Occurrence where
  name : String
  target : Option InputPosition
  deriving DecidableEq, Repr

namespace InputPosition

/-- The position of a list's items. -/
def item? (p : InputPosition) : Option InputPosition :=
  p.type.item?.map fun type => ⟨type, false⟩

/-- The fields of the input object that is expected. -/
def inputFields? (schema : Schema) (p : InputPosition) : Option (OrderedMap Parameter) :=
  (schema.type? p.type.innermostName).bind TypeDef.inputFields?

end InputPosition

mutual

/-- Every variable within a value that flows into the position `target`. -/
def Value.occurrences (schema : Schema) (target : Option InputPosition) :
    Value → List Occurrence
  | .var name => [⟨name, target⟩]
  | .list items => itemOccurrences schema (target.bind InputPosition.item?) items
  | .object fields =>
    fieldOccurrences schema (target.bind (InputPosition.inputFields? schema)) fields
  | .int _ | .float _ | .string _ | .boolean _ | .null | .enum _ => []

/-- Every variable within the items of a list. -/
def itemOccurrences (schema : Schema) (target : Option InputPosition) :
    List Value → List Occurrence
  | [] => []
  | item :: rest => item.occurrences schema target ++ itemOccurrences schema target rest

/-- Every variable within the fields of an object. -/
def fieldOccurrences (schema : Schema) (parameters : Option (OrderedMap Parameter)) :
    List (String × Value) → List Occurrence
  | [] => []
  | (name, value) :: rest =>
    value.occurrences schema ((parameters.bind (·.find? name)).map Parameter.position) ++
      fieldOccurrences schema parameters rest

end

/-! ### Fragments reached by spreads -/

/-- The number of spreads in all fragments of a document. -/
def Document.spreadCount (doc : Document) : Nat :=
  doc.fragments.foldr (fun frag n => frag.selections.spreads.length + n) 0

/-- Mark the fragments reached from a queue of spreads within `n` steps, and
give those among them that are defined and were not marked before. -/
def reachableWithin (doc : Document) :
    Nat → List SpreadUse → Workspace → List Fragment × Workspace
  | 0, _, w => ([], w)
  | _ + 1, [], w => ([], w)
  | n + 1, spread :: queue, w =>
    if w.isVisited spread.fragment then reachableWithin doc n queue w
    else
      let w := w.addVisited spread.fragment
      match w.fragment? doc spread.fragment with
      | none => reachableWithin doc n queue w
      | some frag =>
        let (reached, w) := reachableWithin doc n (queue ++ frag.selections.spreads) w
        (frag :: reached, w)

/-- Mark the fragments reached from a selection set, breadth first, and give
those among them that are defined and were not marked before.  A fragment that
is not defined is marked too.  Every spread is queued at most once, by the
selection set or by the fragment that holds it, and that bounds the number of
steps. -/
def reachable (doc : Document) (set : SelectionSet) (w : Workspace) :
    List Fragment × Workspace :=
  reachableWithin doc (set.spreads.length + doc.spreadCount) set.spreads w

/-- The arguments of an operation and of the fragments reached from it. -/
def operationArguments (schema : Schema) (doc : Document) (op : Operation) (w : Workspace) :
    List ArgumentUse × Workspace :=
  let own := directiveArguments schema op.directives ++
    op.selections.arguments schema (schema.root? op.kind)
  let (reached, w) := reachable doc op.selections w.clearVisited
  let others := reached.flatMap fun frag =>
    directiveArguments schema frag.directives ++
      frag.selections.arguments schema (schema.fragmentScope frag)
  (own ++ others, w)

end GraphQLStatics
