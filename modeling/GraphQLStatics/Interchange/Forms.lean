import GraphQLStatics.Interchange.Json
import GraphQLStatics.Language.Binary64
import GraphQLStatics.Schema.TypeDef
import GraphQLStatics.Validation.Validator

/-!
# JSON forms of the library's data

How rules, kinds, locations, places, type references and configurations are
written as JSON, and which JSON values are read as them.

## Main Definitions

* `Choice`, `Choice.read?`, `Choice.write`: a choice among names
* `Record.field?`: the fields of a record
* for each type `ofJson?` and `toJson`

## Design Notes

A choice is written as its name; it is also read from an object whose only
member has that name and is `null`.  A choice that carries data is an object
whose only member holds it.  A record is an object, in which members that are
no fields are passed over, or an array of its fields in order.
-/

namespace GraphQLStatics

/-! ### Choices and records -/

/-- The alternatives of a choice with their names. -/
abbrev Choice (α : Type) := List (String × α)

namespace Choice

/-- The alternative that a value names. -/
def read? {α : Type} (choice : Choice α) : Json → Option α
  | .string name => choice.lookup name
  | .object [(name, .null)] => choice.lookup name
  | _ => none

end Choice

namespace Record

/-- The member of an object that holds a field; the outer option is empty if
there are several. -/
def member? (members : List (String × Json)) (name : String) : Option (Option Json) :=
  match Json.membersAt name members with
  | [] => some none
  | [value] => some (some value)
  | _ => none

/-- The values of a record's fields, in the order of their names.  A value that
is missing is `none`; in an array only the last ones can be. -/
def fields? (names : List String) : Json → Option (List (Option Json))
  | .object members => names.mapM (member? members)
  | .array items =>
    if items.length ≤ names.length then
      some (items.map some ++ List.replicate (names.length - items.length) none)
    else none
  | _ => none

end Record

/-- The natural number of an integer literal below `2 ^ 64`. -/
def Json.nat64? : Json → Option Nat
  | .number literal =>
    let cs := literal.toList
    if cs.isEmpty || !cs.all Char.isDigit then none
    else
      let n := Decimal.natOfDigits cs
      if n < Nat.pow 2 64 then some n else none
  | _ => none

/-! ### Rules, kinds and locations -/

namespace Rule

/-- The rules by name. -/
def choice : Choice Rule :=
  standard.map fun rule => (rule.name, rule)

/-- The rule that a value names. -/
def ofJson? (j : Json) : Option Rule :=
  choice.read? j

/-- A rule as JSON. -/
def toJson (rule : Rule) : Json :=
  .string rule.name

end Rule

namespace Category

/-- The name of a category. -/
def name : Category → String
  | .directive => "Directive"
  | .field => "Field"
  | .fragment => "Fragment"
  | .structural => "Structural"
  | .variable => "Variable"

/-- The categories by name. -/
def choice : Choice Category :=
  [.directive, .field, .fragment, .structural, .variable].map fun c => (c.name, c)

/-- The category that a value names. -/
def ofJson? (j : Json) : Option Category :=
  choice.read? j

/-- A category as JSON. -/
def toJson (category : Category) : Json :=
  .string category.name

end Category

namespace OperationKind

/-- The name of a kind of operation in JSON. -/
def formName : OperationKind → String
  | .query => "Query"
  | .mutation => "Mutation"
  | .subscription => "Subscription"

/-- The kinds of operation by name. -/
def choice : Choice OperationKind :=
  [.query, .mutation, .subscription].map fun k => (k.formName, k)

/-- The kind of operation that a value names. -/
def ofJson? (j : Json) : Option OperationKind :=
  choice.read? j

/-- A kind of operation as JSON. -/
def toJson (kind : OperationKind) : Json :=
  .string kind.formName

end OperationKind

namespace TypeKind

/-- The name of a kind of type in JSON. -/
def formName : TypeKind → String
  | .boolean => "Bool"
  | kind => kind.name

/-- The kinds of type by name. -/
def choice : Choice TypeKind :=
  [.boolean, .enum, .float, .id, .inputObject, .int, .interface, .object, .scalar, .string,
   .union].map fun k => (k.formName, k)

/-- The kind of type that a value names. -/
def ofJson? (j : Json) : Option TypeKind :=
  choice.read? j

/-- A kind of type as JSON. -/
def toJson (kind : TypeKind) : Json :=
  .string kind.formName

end TypeKind

namespace DirectiveLocation

/-- The name of a location in JSON. -/
def formName : DirectiveLocation → String
  | .query => "Query"
  | .mutation => "Mutation"
  | .subscription => "Subscription"
  | .field => "Field"
  | .fragmentDefinition => "FragmentDefinition"
  | .fragmentSpread => "FragmentSpread"
  | .inlineFragment => "InlineFragment"
  | .variableDefinition => "VariableDefinition"
  | .schema => "Schema"
  | .scalar => "Scalar"
  | .object => "Object"
  | .fieldDefinition => "FieldDefinition"
  | .argumentDefinition => "ArgumentDefinition"
  | .interface => "Interface"
  | .union => "Union"
  | .enum => "Enum"
  | .enumValue => "EnumValue"
  | .inputObject => "InputObject"
  | .inputFieldDefinition => "InputFieldDefinition"

/-- The locations by name. -/
def choice : Choice DirectiveLocation :=
  all.map fun location => (location.formName, location)

/-- The location that a value names. -/
def ofJson? (j : Json) : Option DirectiveLocation :=
  choice.read? j

/-- A location as JSON. -/
def toJson (location : DirectiveLocation) : Json :=
  .string location.formName

end DirectiveLocation

/-! ### Places -/

namespace Place

/-- The file of a place: a text, or nothing. -/
def fileOfJson? : Json → Option (Option String)
  | .null => some none
  | .string text => some (some text)
  | _ => none

/-- The place that a value describes.  An object may leave out the file. -/
def ofJson? (j : Json) : Option Place := do
  let isObject := match j with
    | .object _ => true
    | _ => false
  match ← Record.fields? ["col", "file", "line"] j with
  | [some column, file, some line] =>
    let file ← match file with
      | some file => fileOfJson? file
      | none => if isObject then some none else none
    return ⟨file, ⟨← line.nat64?, ← column.nat64?⟩⟩
  | _ => none

/-- A place as JSON. -/
def toJson (place : Place) : Json :=
  .object [("col", .nat place.position.column), ("file", .option .string place.file),
    ("line", .nat place.position.line)]

end Place

namespace Origin

/-- The origin that a value describes. -/
def ofJson? : Json → Option Origin
  | .object [("Schema", place)] => (Place.ofJson? place).map .source
  | j => Choice.read? [("GraphQLBuiltIn", .builtIn)] j

/-- An origin as JSON. -/
def toJson : Origin → Json
  | .builtIn => .string "GraphQLBuiltIn"
  | .source place => .object [("Schema", place.toJson)]

end Origin

/-! ### Type references -/

namespace TypeRef

/-- The type reference of at most `n` layers that a value describes. -/
def ofJsonWithin? : Nat → Json → Option TypeRef
  | 0, _ => none
  | n + 1, .object [("List", form)] => do
    match ← Record.fields? ["inner_type_ref", "nullable"] form with
    | [some item, some nullable] => return .list (← ofJsonWithin? n item) (← nullable.bool?)
    | _ => none
  | _ + 1, .object [("Named", form)] => do
    match ← Record.fields? ["nullable", "type_name"] form with
    | [some nullable, some name] => return .named (← name.text?) (← nullable.bool?)
    | _ => none
  | _ + 1, _ => none

/-- The type reference that a value describes. -/
def ofJson? (j : Json) : Option TypeRef :=
  ofJsonWithin? j.depth j

/-- A type reference as JSON. -/
def toJson : TypeRef → Json
  | .named name nullable =>
    .object [("Named", .object [("nullable", .bool nullable), ("type_name", .string name)])]
  | .list item nullable =>
    .object [("List", .object [("inner_type_ref", item.toJson), ("nullable", .bool nullable)])]

end TypeRef

/-! ### Configurations -/

namespace ValidatorConfig

/-- The configuration that a value describes; what is left out is standard. -/
def ofJson? (j : Json) : Option ValidatorConfig := do
  match ← Record.fields? ["pool_capacity", "rules"] j with
  | [capacity, rules] =>
    let poolCapacity ← match capacity with
      | some capacity => capacity.nat64?
      | none => some standard.poolCapacity
    let rules ← match rules with
      | some rules => rules.items?.bind (·.mapM Rule.ofJson?)
      | none => some standard.rules
    return { poolCapacity, rules }
  | _ => none

/-- A configuration as JSON. -/
def toJson (config : ValidatorConfig) : Json :=
  .object [("pool_capacity", .nat config.poolCapacity),
    ("rules", .array (config.rules.map Rule.toJson))]

end ValidatorConfig

end GraphQLStatics
