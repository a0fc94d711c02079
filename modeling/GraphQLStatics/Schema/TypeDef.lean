import GraphQLStatics.Language.Definition
import GraphQLStatics.OrderedMap
import GraphQLStatics.Schema.TypeRef

/-!
# Types of a schema

## Main Definitions

* `TypeKind`: the kinds of type, and which of them are composite, input or leaf
* `Parameter`, `Field`
* `BuiltInScalar`, `TypeContent`, `TypeDef`
* `TypeContent.ofBody`, `TypeContent.extend?`: types from their definitions and
  extensions
-/

namespace GraphQLStatics

/-! ### Kinds -/

/-- The kinds of type; each built-in scalar is a kind of its own. -/
inductive TypeKind where
  | boolean
  | enum
  | float
  | id
  | inputObject
  | int
  | interface
  | object
  | scalar
  | string
  | union
  deriving DecidableEq, Repr

namespace TypeKind

/-- The name of a kind. -/
def name : TypeKind → String
  | .boolean => "Boolean"
  | .enum => "Enum"
  | .float => "Float"
  | .id => "ID"
  | .inputObject => "InputObject"
  | .int => "Int"
  | .interface => "Interface"
  | .object => "Object"
  | .scalar => "Scalar"
  | .string => "String"
  | .union => "Union"

/-- Composite types are those a selection set can be scoped to. -/
def isComposite : TypeKind → Bool
  | .interface | .object | .union => true
  | _ => false

/-- Input types are those a variable can have. -/
def isInput : TypeKind → Bool
  | .interface | .object | .union => false
  | _ => true

/-- Leaf types have neither fields nor members. -/
def isLeaf : TypeKind → Bool
  | .inputObject | .interface | .object | .union => false
  | _ => true

end TypeKind

/-! ### Parameters and fields -/

/-- An argument of a field or directive, or a field of an input object. -/
structure Parameter where
  name : String
  type : TypeRef
  origin : Origin
  default : Option Value

/-- A field of an object or interface. -/
structure Field where
  name : String
  type : TypeRef
  origin : Origin
  parameters : OrderedMap Parameter

namespace Parameter

/-- The parameter of a definition in the file `path`. -/
def ofDefinition (path : String) (d : InputValueDefinition) : Parameter where
  name := d.name
  type := .ofExpr d.type
  origin := .source ⟨some path, d.position⟩
  default := d.default

/-- Definitions as named parameters. -/
def entries (path : String) (ds : List InputValueDefinition) : List (String × Parameter) :=
  ds.map fun d => (d.name, ofDefinition path d)

end Parameter

namespace Field

/-- The field of a definition in the file `path`. -/
def ofDefinition (path : String) (d : FieldDefinition) : Field where
  name := d.name
  type := .ofExpr d.type
  origin := .source ⟨some path, d.position⟩
  parameters := .ofList (Parameter.entries path d.parameters)

/-- Definitions as named fields. -/
def entries (path : String) (ds : List FieldDefinition) : List (String × Field) :=
  ds.map fun d => (d.name, ofDefinition path d)

end Field

/-! ### Types -/

/-- The scalars that every schema has. -/
inductive BuiltInScalar where
  | boolean
  | float
  | id
  | int
  | string
  deriving DecidableEq, Repr

namespace BuiltInScalar

/-- Every built-in scalar, in the order of a schema's types. -/
def all : List BuiltInScalar :=
  [.boolean, .float, .id, .int, .string]

/-- The kind of a built-in scalar. -/
def kind : BuiltInScalar → TypeKind
  | .boolean => .boolean
  | .float => .float
  | .id => .id
  | .int => .int
  | .string => .string

/-- The name of a built-in scalar. -/
def name (s : BuiltInScalar) : String :=
  s.kind.name

end BuiltInScalar

/-- What a defined type consists of. -/
inductive TypeContent where
  | scalar
  | object (interfaces : List String) (fields : OrderedMap Field)
  | interface (fields : OrderedMap Field)
  | union (members : List String)
  | enum (values : List String)
  | inputObject (fields : OrderedMap Parameter)

/-- The kind of type that a definition or extension is about. -/
def TypeBody.kind : TypeBody → TypeKind
  | .scalar => .scalar
  | .object _ _ => .object
  | .interface _ => .interface
  | .union _ => .union
  | .enum _ => .enum
  | .inputObject _ => .inputObject

namespace TypeContent

/-- The kind of a defined type. -/
def kind : TypeContent → TypeKind
  | .scalar => .scalar
  | .object _ _ => .object
  | .interface _ => .interface
  | .union _ => .union
  | .enum _ => .enum
  | .inputObject _ => .inputObject

/-- The content given by a definition in the file `path`. -/
def ofBody (path : String) : TypeBody → TypeContent
  | .scalar => .scalar
  | .object interfaces fields => .object interfaces (.ofList (Field.entries path fields))
  | .interface fields => .interface (.ofList (Field.entries path fields))
  | .union members => .union members
  | .enum values => .enum values
  | .inputObject fields => .inputObject (.ofList (Parameter.entries path fields))

/-- The content with that of an extension in the file `path` added; `none` if
the extension is about another kind of type. -/
def extend? (path : String) : TypeContent → TypeBody → Option TypeContent
  | .scalar, .scalar => some .scalar
  | .object interfaces fields, .object moreInterfaces moreFields =>
    some (.object (interfaces ++ moreInterfaces)
      (fields.insertAll (Field.entries path moreFields)))
  | .interface fields, .interface moreFields =>
    some (.interface (fields.insertAll (Field.entries path moreFields)))
  | .union members, .union moreMembers => some (.union (members ++ moreMembers))
  | .enum values, .enum moreValues => some (.enum (values ++ moreValues))
  | .inputObject fields, .inputObject moreFields =>
    some (.inputObject (fields.insertAll (Parameter.entries path moreFields)))
  | _, _ => none

end TypeContent

/-- A type of a schema. -/
inductive TypeDef where
  | builtIn (scalar : BuiltInScalar)
  | defined (name : String) (place : Place) (content : TypeContent)

namespace TypeDef

/-- The name of a type. -/
def name : TypeDef → String
  | .builtIn scalar => scalar.name
  | .defined name _ _ => name

/-- The kind of a type. -/
def kind : TypeDef → TypeKind
  | .builtIn scalar => scalar.kind
  | .defined _ _ content => content.kind

/-- Where a type was defined. -/
def origin : TypeDef → Origin
  | .builtIn _ => .builtIn
  | .defined _ place _ => .source place

/-- The type of a definition in the file `path`. -/
def ofDefinition (path : String) (d : TypeDefinition) : TypeDef :=
  .defined d.name ⟨some path, d.position⟩ (.ofBody path d.body)

/-- Whether a selection set can be scoped to the type. -/
def isComposite (t : TypeDef) : Bool :=
  t.kind.isComposite

/-- Whether a variable can have the type. -/
def isInput (t : TypeDef) : Bool :=
  t.kind.isInput

/-- Whether the type is an object. -/
def isObject (t : TypeDef) : Bool :=
  t.kind = .object

/-- Whether the type is a union. -/
def isUnion (t : TypeDef) : Bool :=
  t.kind = .union

/-- The fields that can be selected on an object or interface. -/
def fields? : TypeDef → Option (OrderedMap Field)
  | .defined _ _ (.object _ fields) => some fields
  | .defined _ _ (.interface fields) => some fields
  | _ => none

/-- A field that can be selected on the type. -/
def field? (t : TypeDef) (name : String) : Option Field :=
  t.fields?.bind (·.find? name)

/-- The fields of an input object. -/
def inputFields? : TypeDef → Option (OrderedMap Parameter)
  | .defined _ _ (.inputObject fields) => some fields
  | _ => none

/-- The interfaces that an object declares. -/
def interfaces? : TypeDef → Option (List String)
  | .defined _ _ (.object interfaces _) => some interfaces
  | _ => none

/-- The members of a union. -/
def members? : TypeDef → Option (List String)
  | .defined _ _ (.union members) => some members
  | _ => none

/-- The values of an enum. -/
def values? : TypeDef → Option (List String)
  | .defined _ _ (.enum values) => some values
  | _ => none

/-- Whether the type is an object that declares the interface. -/
def implements (t : TypeDef) (interface : String) : Bool :=
  t.interfaces?.any (·.contains interface)

end TypeDef

end GraphQLStatics
