import GraphQLStatics.Schema.DirectiveDef

/-!
# Schemas

A schema is a set of types and directives with root types for the operations.

## Main Definitions

* `Schema`, `Schema.type?`, `Schema.directive?`, `Schema.root?`
* `Schema.possibleTypes`, `Schema.isPossible`: the objects a composite type
  stands for
* `Schema.overlap`: whether two types have an object in common
-/

namespace GraphQLStatics

/-- A schema. -/
structure Schema where
  types : OrderedMap TypeDef
  directives : OrderedMap DirectiveDef
  query : String
  mutation : Option String
  subscription : Option String

namespace Schema

/-- The type with a name. -/
def type? (schema : Schema) (name : String) : Option TypeDef :=
  schema.types.find? name

/-- The directive with a name. -/
def directive? (schema : Schema) (name : String) : Option DirectiveDef :=
  schema.directives.find? name

/-- The name of the root type for a kind of operation. -/
def rootName? (schema : Schema) : OperationKind → Option String
  | .query => some schema.query
  | .mutation => schema.mutation
  | .subscription => schema.subscription

/-- The root type for a kind of operation. -/
def root? (schema : Schema) (kind : OperationKind) : Option TypeDef :=
  (schema.rootName? kind).bind schema.type?

/-- The root type of queries, which is an object. -/
def queryType? (schema : Schema) : Option TypeDef :=
  (schema.root? .query).filter TypeDef.isObject

/-- The objects that a value of the type can be: an object is its own only one,
an interface has the objects that declare it, in the order of the schema's
types, and a union has its members that are objects, in their order. -/
def possibleTypes (schema : Schema) (t : TypeDef) : List TypeDef :=
  match t with
  | .defined _ _ (.object _ _) => [t]
  | .defined name _ (.interface _) => schema.types.values.filter (·.implements name)
  | .defined _ _ (.union members) =>
    (members.filterMap schema.type?).filter TypeDef.isObject
  | _ => []

/-- Whether the type can be the object with the given name. -/
def isPossible (schema : Schema) (t : TypeDef) (object : String) : Bool :=
  (schema.possibleTypes t).any (·.name = object)

/-- Whether some object can be of both types.  A composite type overlaps with
itself. -/
def overlap (schema : Schema) (a b : TypeDef) : Bool :=
  if a.name = b.name then a.isComposite
  else (schema.possibleTypes a).any fun object => schema.isPossible b object.name

end Schema

end GraphQLStatics
