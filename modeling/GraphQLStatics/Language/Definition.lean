import GraphQLStatics.Language.Selection
import GraphQLStatics.Language.TypeExpr

/-!
# Definitions

The top-level definitions of the language: operations and fragments, which can
be executed, and the definitions of the type system.

## Main Definitions

* `OperationKind`, `VariableDefinition`, `Operation`, `Fragment`
* `InputValueDefinition`, `FieldDefinition`, `TypeBody`, `TypeDefinition`
* `DirectiveLocation`, `DirectiveDefinition`, `RootBlock`
* `TypeSystemDefinition`

## Design Notes

An extension of a type has the same parts as a definition of it, so both are a
`TypeDefinition`.

Of a definition of the type system only that is kept which a schema is made from.
Descriptions, directives that are applied within the type system, and the
interfaces that an interface implements are read, and a text in which they are
malformed is refused, but they are not kept.  So definitions that differ in nothing
else are equal, and a statement about the definitions of a text says nothing about
these parts.
-/

namespace GraphQLStatics

/-! ### Operations and fragments -/

/-- The three kinds of operation. -/
inductive OperationKind where
  | query
  | mutation
  | subscription
  deriving DecidableEq, Repr

namespace OperationKind

/-- The keyword of a kind of operation. -/
def keyword : OperationKind → String
  | .query => "query"
  | .mutation => "mutation"
  | .subscription => "subscription"

/-- The kind of operation with a given keyword. -/
def ofKeyword? (word : String) : Option OperationKind :=
  if word = "query" then some .query
  else if word = "mutation" then some .mutation
  else if word = "subscription" then some .subscription
  else none

end OperationKind

/-- A variable declared by an operation. -/
structure VariableDefinition where
  position : Position
  name : String
  type : TypeExpr
  default : Option Value

/-- An operation.  One written as a bare selection set is a query without
name, variables and directives. -/
structure Operation where
  position : Position
  kind : OperationKind
  name : Option String
  declared : List VariableDefinition
  directives : List DirectiveUse
  selections : SelectionSet

/-- A named fragment. -/
structure Fragment where
  position : Position
  name : String
  condition : String
  directives : List DirectiveUse
  selections : SelectionSet

/-! ### The type system -/

/-- An argument of a field or directive, or a field of an input object. -/
structure InputValueDefinition where
  position : Position
  name : String
  type : TypeExpr
  default : Option Value

/-- A field of an object or interface. -/
structure FieldDefinition where
  position : Position
  name : String
  parameters : List InputValueDefinition
  type : TypeExpr

/-- What a definition or extension of a type contains. -/
inductive TypeBody where
  | scalar
  | object (interfaces : List String) (fields : List FieldDefinition)
  | interface (fields : List FieldDefinition)
  | union (members : List String)
  | enum (values : List String)
  | inputObject (fields : List InputValueDefinition)

/-- A definition or extension of a named type. -/
structure TypeDefinition where
  position : Position
  name : String
  body : TypeBody

/-- The elements a directive may be applied to. -/
inductive DirectiveLocation where
  | query
  | mutation
  | subscription
  | field
  | fragmentDefinition
  | fragmentSpread
  | inlineFragment
  | variableDefinition
  | schema
  | scalar
  | object
  | fieldDefinition
  | argumentDefinition
  | interface
  | union
  | enum
  | enumValue
  | inputObject
  | inputFieldDefinition
  deriving DecidableEq, Repr

namespace DirectiveLocation

/-- Every location, those in executable documents first. -/
def all : List DirectiveLocation :=
  [.query, .mutation, .subscription, .field, .fragmentDefinition, .fragmentSpread,
   .inlineFragment, .variableDefinition, .schema, .scalar, .object, .fieldDefinition,
   .argumentDefinition, .interface, .union, .enum, .enumValue, .inputObject,
   .inputFieldDefinition]

/-- The name of a location in a directive definition. -/
def name : DirectiveLocation → String
  | .query => "QUERY"
  | .mutation => "MUTATION"
  | .subscription => "SUBSCRIPTION"
  | .field => "FIELD"
  | .fragmentDefinition => "FRAGMENT_DEFINITION"
  | .fragmentSpread => "FRAGMENT_SPREAD"
  | .inlineFragment => "INLINE_FRAGMENT"
  | .variableDefinition => "VARIABLE_DEFINITION"
  | .schema => "SCHEMA"
  | .scalar => "SCALAR"
  | .object => "OBJECT"
  | .fieldDefinition => "FIELD_DEFINITION"
  | .argumentDefinition => "ARGUMENT_DEFINITION"
  | .interface => "INTERFACE"
  | .union => "UNION"
  | .enum => "ENUM"
  | .enumValue => "ENUM_VALUE"
  | .inputObject => "INPUT_OBJECT"
  | .inputFieldDefinition => "INPUT_FIELD_DEFINITION"

/-- The location with a given name. -/
def ofName? (text : String) : Option DirectiveLocation :=
  all.find? (·.name = text)

/-- Whether the location lies in an executable document. -/
def isExecutable : DirectiveLocation → Bool
  | .query | .mutation | .subscription | .field | .fragmentDefinition | .fragmentSpread
  | .inlineFragment | .variableDefinition => true
  | _ => false

end DirectiveLocation

/-- A definition of a directive. -/
structure DirectiveDefinition where
  position : Position
  name : String
  parameters : List InputValueDefinition
  repeatable : Bool
  locations : List DirectiveLocation

/-- A block that names the root types of operations. -/
structure RootBlock where
  position : Position
  query : Option String
  mutation : Option String
  subscription : Option String
  deriving DecidableEq, Repr

namespace RootBlock

/-- The root type that a block names for a kind of operation. -/
def root (block : RootBlock) : OperationKind → Option String
  | .query => block.query
  | .mutation => block.mutation
  | .subscription => block.subscription

end RootBlock

/-- A definition of the type system. -/
inductive TypeSystemDefinition where
  | roots (block : RootBlock)
  | type (definition : TypeDefinition)
  | extension (definition : TypeDefinition)
  | directive (definition : DirectiveDefinition)

namespace TypeSystemDefinition

/-- The position of a definition. -/
def position : TypeSystemDefinition → Position
  | .roots block => block.position
  | .type definition => definition.position
  | .extension definition => definition.position
  | .directive definition => definition.position

end TypeSystemDefinition

/-! ### Top-level definitions -/

/-- A top-level definition of a document. -/
inductive Definition where
  | operation (op : Operation)
  | fragment (frag : Fragment)
  | typeSystem (definition : TypeSystemDefinition)

namespace Definition

/-- The fragment that a definition defines. -/
def fragment? : Definition → Option Fragment
  | .fragment frag => some frag
  | _ => none

/-- The operation that a definition defines. -/
def operation? : Definition → Option Operation
  | .operation op => some op
  | _ => none

/-- Whether a definition can be executed. -/
def isExecutable : Definition → Bool
  | .typeSystem _ => false
  | _ => true

/-- The position of a definition. -/
def position : Definition → Position
  | .operation op => op.position
  | .fragment frag => frag.position
  | .typeSystem definition => definition.position

end Definition

end GraphQLStatics
