import GraphQLStatics.Validation.Traversal

/-!
# Variables

Three rules: an operation declares the variables that it uses and uses those
that it declares; a variable fits where it is used; and the variables of an
operation have different names and input types.

## Main Definitions

* `checkVariablesUsed`
* `checkUsagesAllowed`
* `checkVariableTypes`
-/

namespace GraphQLStatics

/-! ### Declared and used -/

/-- The names of variables with the position of their first use. -/
def firstUses (schema : Schema) (arguments : List ArgumentUse) : OrderedMap Position :=
  arguments.foldl
    (fun used argument =>
      (argument.value.occurrences schema none).foldl
        (fun used occurrence =>
          if used.contains occurrence.name then used
          else used.insert occurrence.name argument.position)
        used)
    .empty

/-- Whether an operation declares a variable. -/
def Operation.declares (op : Operation) (name : String) : Bool :=
  op.declared.any (·.name = name)

/-- Check that an operation declares a variable that it uses. -/
def checkDeclared (doc : Document) (op : Operation) (w : Workspace)
    (use : String × Position) : Workspace :=
  if op.declares use.1 then w
  else w.report (.variableNotDeclared op.name use.1 (doc.place use.2) (doc.place op.position))

/-- Check that an operation uses a variable that it declares.  A name is
reported once; those reported are the workspace's names. -/
def checkDeclaredUsed (doc : Document) (op : Operation) (used : OrderedMap Position)
    (w : Workspace) (v : VariableDefinition) : Workspace :=
  if used.contains v.name || w.hasName v.name then w
  else (w.addName v.name).report (.variableNotUsed op.name v.name (doc.place v.position))

/-- Check the variables that an operation declares and uses. -/
def checkOperationUses (schema : Schema) (doc : Document) (w : Workspace) (op : Operation) :
    Workspace :=
  let (arguments, w) := operationArguments schema doc op w
  let used := firstUses schema arguments
  let w := used.entries.foldl (checkDeclared doc op) w
  op.declared.foldl (checkDeclaredUsed doc op used) w.clearNames

/-- Check that operations declare what they use, and use what they declare. -/
def checkVariablesUsed (schema : Schema) (doc : Document) (w : Workspace) : Workspace :=
  doc.operations.foldl (checkOperationUses schema doc) w

/-! ### Positions of use -/

/-- Whether a variable has a default other than `null`. -/
def VariableDefinition.hasDefault (v : VariableDefinition) : Bool :=
  v.default.any (!·.isNull)

/-- The violation of a variable within an argument.  One that is not declared,
or flows into no known position, is left to other rules. -/
def usageViolation? (doc : Document) (op : Operation) (position : Position)
    (occurrence : Occurrence) : Option Violation :=
  match occurrence.target, op.declared.find? (·.name = occurrence.name) with
  | some target, some v =>
    let given := TypeRef.ofExpr v.type
    if given.usageAllowed v.hasDefault target.type target.hasDefault then none
    else some (.usageNotAllowed occurrence.name given target.type (doc.place position))
  | _, _ => none

/-- The violations of the variables within an argument. -/
def ArgumentUse.violations (schema : Schema) (doc : Document) (op : Operation)
    (argument : ArgumentUse) : List Violation :=
  (argument.value.occurrences schema argument.target).filterMap
    (usageViolation? doc op argument.position)

/-- Check the variables of an operation where they are used. -/
def checkOperationUsages (schema : Schema) (doc : Document) (w : Workspace) (op : Operation) :
    Workspace :=
  let (arguments, w) := operationArguments schema doc op w
  (arguments.flatMap (ArgumentUse.violations schema doc op)).foldl Workspace.report w

/-- Check that variables fit where they are used. -/
def checkUsagesAllowed (schema : Schema) (doc : Document) (w : Workspace) : Workspace :=
  doc.operations.foldl (checkOperationUsages schema doc) w

/-! ### Names and types -/

/-- Whether a variable can have the type with a name. -/
def Schema.hasInputType (schema : Schema) (name : String) : Bool :=
  (schema.type? name).any TypeDef.isInput

/-- Check the name and the type of a variable.  The variables met before are the
workspace's names. -/
def checkVariable (schema : Schema) (doc : Document) (op : Operation) (w : Workspace)
    (v : VariableDefinition) : Workspace :=
  let place := doc.place v.position
  let w :=
    if w.hasName v.name then w.report (.variableNameNotUnique op.name v.name place)
    else w.addName v.name
  let type := (TypeRef.ofExpr v.type).innermostName
  if schema.hasInputType type then w else w.report (.variableNotInput v.name type place)

/-- Check the names and types of an operation's variables. -/
def checkOperationVariables (schema : Schema) (doc : Document) (w : Workspace)
    (op : Operation) : Workspace :=
  op.declared.foldl (checkVariable schema doc op) w.clearNames

/-- Check the names and types of variables. -/
def checkVariableTypes (schema : Schema) (doc : Document) (w : Workspace) : Workspace :=
  doc.operations.foldl (checkOperationVariables schema doc) w

end GraphQLStatics
