import GraphQLStatics.Files.Content
import GraphQLStatics.Schema.TypeDef

/-!
# Why no schema can be built

## Main Definitions

* `SchemaFailure`, `SchemaFailure.message`
-/

namespace GraphQLStatics

/-- Why a schema cannot be loaded or built. -/
inductive SchemaFailure where
  | duplicateDirective (name : String) (first : Origin) (second : Place)
  | duplicateRoot (operation : OperationKind) (first second : Place)
  | duplicateType (name : String) (first second : Origin)
  | extensionOfUndefined (name : String) (place : Place)
  | extensionOfOtherKind (name : String) (place : Place) (actual expected : TypeKind)
  | noQueryRoot
  | malformed (path : String) (position : Position)
  | builtInDirective (name : String) (place : Place)
  | rootNotAnObject (operation : OperationKind) (name : String) (place : Place)
  | unreadable (cause : ReadFailure)
  deriving DecidableEq, Repr

/-- The text of a failure. -/
def SchemaFailure.message : SchemaFailure → String
  | .duplicateDirective name _ _ =>
    "Multiple directives were defined with the same name: `@" ++ name ++ "`"
  | .duplicateRoot operation _ _ =>
    "The `" ++ operation.keyword ++ "` root operation type was defined more than once"
  | .duplicateType name _ _ =>
    "Multiple GraphQL types with the same name were defined: `" ++ name ++ "`"
  | .extensionOfUndefined name _ =>
    "Attempted to extend a type that is not defined: `" ++ name ++ "`"
  | .extensionOfOtherKind name _ actual expected =>
    "Attempted to extend `" ++ name ++ "` as a " ++ expected.name ++
      " type, but it is defined as a " ++ actual.name ++ " type"
  | .noQueryRoot => "No `Query` root operation type was defined"
  | .malformed path position =>
    "Error parsing schema from " ++ Text.quoted path ++
      ": schema parse error: Parse error at " ++ position.render
  | .builtInDirective name _ =>
    "Attempted to redefine the built-in directive `@" ++ name ++ "`"
  | .rootNotAnObject operation name _ =>
    "The `" ++ operation.keyword ++ "` root operation type `" ++ name ++
      "` is not a defined object type"
  | .unreadable _ => "Failure while trying to read a schema file from disk"

end GraphQLStatics
