import GraphQLStatics.Schema.TypeDef

/-!
# Directives of a schema

## Main Definitions

* `DirectiveDef`
* `DirectiveDef.builtIns`: the directives that every schema has
-/

namespace GraphQLStatics

/-- A directive of a schema. -/
structure DirectiveDef where
  name : String
  origin : Origin
  repeatable : Bool
  locations : List DirectiveLocation
  parameters : OrderedMap Parameter

namespace DirectiveDef

/-- The directive of a definition in the file `path`. -/
def ofDefinition (path : String) (d : DirectiveDefinition) : DirectiveDef where
  name := d.name
  origin := .source ⟨some path, d.position⟩
  repeatable := d.repeatable
  locations := d.locations
  parameters := .ofList (Parameter.entries path d.parameters)

/-- Whether the directive may be applied at a location. -/
def validIn (d : DirectiveDef) (location : DirectiveLocation) : Bool :=
  d.locations.contains location

/-! ### Built-in directives -/

/-- A directive that is built in, with its only parameter. -/
def builtIn (name : String) (locations : List DirectiveLocation) (parameter : String)
    (type : TypeRef) (default : Option Value) : DirectiveDef where
  name
  origin := .builtIn
  repeatable := false
  locations
  parameters := .ofList [(parameter, { name := parameter, type, origin := .builtIn, default })]

/-- Leaves a selection out if a condition holds. -/
def skip : DirectiveDef :=
  builtIn "skip" [.field, .fragmentSpread, .inlineFragment] "if" (.named "Boolean" false) none

/-- Keeps a selection only if a condition holds. -/
def keep : DirectiveDef :=
  builtIn "include" [.field, .fragmentSpread, .inlineFragment] "if" (.named "Boolean" false) none

/-- Marks an element that should no longer be used. -/
def deprecated : DirectiveDef :=
  builtIn "deprecated" [.fieldDefinition, .argumentDefinition, .inputFieldDefinition, .enumValue]
    "reason" (.named "String" true) (some (.string "No longer supported"))

/-- Names the specification of a scalar. -/
def specifiedBy : DirectiveDef :=
  builtIn "specifiedBy" [.scalar] "url" (.named "String" false) none

/-- The directives that every schema has, in the order in which they follow the
defined ones. -/
def builtIns : List DirectiveDef :=
  [skip, keep, deprecated, specifiedBy]

/-- Whether a name belongs to a built-in directive. -/
def isBuiltInName (name : String) : Bool :=
  builtIns.any (·.name = name)

end DirectiveDef

end GraphQLStatics
