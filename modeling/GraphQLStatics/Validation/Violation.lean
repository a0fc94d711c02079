import GraphQLStatics.Language.Definition
import GraphQLStatics.Schema.TypeRef

/-!
# Rules and violations

What a document can be checked for, and what such a check can find.

## Main Definitions

* `Rule`, `Rule.standard`: the rules and the order in which they run
* `Violation`, with its `rule`, `places` and `message`
* `Category`
-/

namespace GraphQLStatics

/-- The rules a document can be checked by. -/
inductive Rule where
  | directivesAreValid
  | executableDefinitions
  | fieldMustBeDefined
  | fragmentsAreValid
  | allVariablesUsed
  | allVariableUsagesAreAllowed
  | variableUniqueAndInputType
  deriving DecidableEq, Repr

namespace Rule

/-- Every rule, in the order in which they run unless another is asked for. -/
def standard : List Rule :=
  [.directivesAreValid, .executableDefinitions, .fieldMustBeDefined, .fragmentsAreValid,
   .allVariablesUsed, .allVariableUsagesAreAllowed, .variableUniqueAndInputType]

/-- The name of a rule. -/
def name : Rule → String
  | .directivesAreValid => "DirectivesAreValid"
  | .executableDefinitions => "ExecutableDefinitions"
  | .fieldMustBeDefined => "FieldMustBeDefined"
  | .fragmentsAreValid => "FragmentsAreValid"
  | .allVariablesUsed => "AllVariablesUsed"
  | .allVariableUsagesAreAllowed => "AllVariableUsagesAreAllowed"
  | .variableUniqueAndInputType => "VariableUniqueAndInputType"

end Rule

/-- What part of the language a violation is about. -/
inductive Category where
  | directive
  | field
  | fragment
  | structural
  | variable
  deriving DecidableEq, Repr

/-- The category of what a rule finds. -/
def Rule.category : Rule → Category
  | .directivesAreValid => .directive
  | .executableDefinitions => .structural
  | .fieldMustBeDefined => .field
  | .fragmentsAreValid => .fragment
  | .allVariablesUsed | .allVariableUsagesAreAllowed | .variableUniqueAndInputType => .variable

/-- Something in a document that breaks a rule, with its place. -/
inductive Violation where
  | directiveNotSupported (directive : String) (place : Place)
  | directiveNotUnique (directive : String) (place : Place)
  | directiveMisplaced (directive : String) (location : DirectiveLocation) (place : Place)
  | fieldDoesNotExist (field type : String) (place : Place)
  | fieldOnUnion (field type : String) (place : Place)
  | fragmentCycle (fragment : String) (path : List String) (place : Place)
  | fragmentNameNotUnique (fragment : String) (place : Place)
  | conditionNotComposite (type : String) (place : Place)
  | fragmentNotUsed (fragment : String) (place : Place)
  /-- A spread or, without a name, an inline fragment. -/
  | spreadNotPossible (fragment : Option String) (parent condition : String) (place : Place)
  | spreadTargetUndefined (fragment : String) (place : Place)
  | conditionUnknown (type : String) (place : Place)
  | notExecutable (place : Place)
  | variableNameNotUnique (operation : Option String) (name : String) (place : Place)
  /-- The place of the first use, and that of the operation. -/
  | variableNotDeclared (operation : Option String) (name : String) (use declarer : Place)
  | variableNotInput (name type : String) (place : Place)
  | variableNotUsed (operation : Option String) (name : String) (place : Place)
  | usageNotAllowed (name : String) (given wanted : TypeRef) (place : Place)
  deriving DecidableEq, Repr

namespace Violation

/-- The rule that a violation breaks. -/
def rule : Violation → Rule
  | .directiveNotSupported _ _ | .directiveNotUnique _ _ | .directiveMisplaced _ _ _ =>
    .directivesAreValid
  | .fieldDoesNotExist _ _ _ | .fieldOnUnion _ _ _ => .fieldMustBeDefined
  | .fragmentCycle _ _ _ | .fragmentNameNotUnique _ _ | .conditionNotComposite _ _
  | .fragmentNotUsed _ _ | .spreadNotPossible _ _ _ _ | .spreadTargetUndefined _ _
  | .conditionUnknown _ _ => .fragmentsAreValid
  | .notExecutable _ => .executableDefinitions
  | .variableNameNotUnique _ _ _ | .variableNotInput _ _ _ => .variableUniqueAndInputType
  | .variableNotDeclared _ _ _ _ | .variableNotUsed _ _ _ => .allVariablesUsed
  | .usageNotAllowed _ _ _ _ => .allVariableUsagesAreAllowed

/-- The category of a violation. -/
def category (v : Violation) : Category :=
  v.rule.category

/-- The places of the elements that a violation is about. -/
def places : Violation → List Place
  | .directiveNotSupported _ place
  | .directiveNotUnique _ place
  | .directiveMisplaced _ _ place
  | .fieldDoesNotExist _ _ place
  | .fieldOnUnion _ _ place
  | .fragmentCycle _ _ place
  | .fragmentNameNotUnique _ place
  | .conditionNotComposite _ place
  | .fragmentNotUsed _ place
  | .spreadNotPossible _ _ _ place
  | .spreadTargetUndefined _ place
  | .conditionUnknown _ place
  | .notExecutable place
  | .variableNameNotUnique _ _ place
  | .variableNotInput _ _ place
  | .variableNotUsed _ _ place
  | .usageNotAllowed _ _ _ place => [place]
  | .variableNotDeclared _ _ use declarer => [use, declarer]

/-- The name by which messages speak of an operation. -/
def operationName (name : Option String) : String :=
  name.getD "<anonymous>"

/-- The text of a violation. -/
def message : Violation → String
  | .directiveNotSupported directive _ =>
    "The specified directive `@" ++ directive ++ "` is not supported by the current schema."
  | .directiveNotUnique directive _ =>
    "Only one of each directive is allowed per location (`@" ++ directive ++
      "` is not repeatable)."
  | .directiveMisplaced directive location _ =>
    "The specified directive `@" ++ directive ++ "` is not valid in location " ++
      location.name ++ "."
  | .fieldDoesNotExist field type _ =>
    "The field `" ++ field ++ "` does not exist on the type `" ++ type ++ "`."
  | .fieldOnUnion _ _ _ =>
    "A union type cannot declare a field directly. Use inline fragments or fragments instead."
  | .fragmentCycle _ path _ =>
    "The graph of fragment spreads must not form any cycles including spreading itself. " ++
      "Otherwise an operation could infinitely spread or infinitely execute on cycles in the " ++
      "underlying data. (path: " ++ " -> ".intercalate path ++ ")"
  | .fragmentNameNotUnique fragment _ =>
    "There are multiple fragments with the name `" ++ fragment ++ "`."
  | .conditionNotComposite _ _ =>
    "Fragments can only be declared on unions, interfaces, and objects."
  | .fragmentNotUsed fragment _ =>
    "The specified fragment `" ++ fragment ++ "` is not used within the current document."
  | .spreadNotPossible _ _ _ _ =>
    "The parent type does not match the type condition on the fragment."
  | .spreadTargetUndefined fragment _ =>
    "The specified fragment `" ++ fragment ++ "` does not exist."
  | .conditionUnknown type _ => "Unknown type `" ++ type ++ "`."
  | .notExecutable _ =>
    "A document containing TypeSystemDefinition is invalid for execution."
  | .variableNameNotUnique _ _ _ =>
    "A document containing operations that define more than one variable with the same name " ++
      "is invalid for execution."
  | .variableNotDeclared operation name _ _ =>
    "The variable `$" ++ name ++ "` is not declared by operation `" ++
      operationName operation ++ "`."
  | .variableNotInput name _ _ =>
    "The type of variable `$" ++ name ++ "` is not an input type."
  | .variableNotUsed operation name _ =>
    "The variable `$" ++ name ++ "` is not used by operation `" ++
      operationName operation ++ "`."
  | .usageNotAllowed name given wanted _ =>
    "The variable `$" ++ name ++ "` of type `" ++ given.render ++
      "` is not compatible with the type `" ++ wanted.render ++ "` of the current location."

end Violation

end GraphQLStatics
