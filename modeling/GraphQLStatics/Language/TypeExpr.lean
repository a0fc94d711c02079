/-!
# Type expressions

Types as they are written: a name, a list or a non-null type.

## Main Definitions

* `TypeExpr`
* `TypeExpr.Plain`: no non-null type directly inside another
* `TypeExpr.render`
-/

namespace GraphQLStatics

/-- A type as written. -/
inductive TypeExpr where
  | named (name : String)
  | list (item : TypeExpr)
  | nonNull (inner : TypeExpr)
  deriving DecidableEq, Repr

namespace TypeExpr

/-- Whether the outermost layer is non-null. -/
def isNonNull : TypeExpr → Bool
  | .nonNull _ => true
  | _ => false

/-- No non-null type stands directly inside another, as the grammar ensures. -/
def Plain : TypeExpr → Prop
  | .named _ => True
  | .list item => item.Plain
  | .nonNull inner => inner.isNonNull = false ∧ inner.Plain

/-- The text of a type. -/
def render : TypeExpr → String
  | .named name => name
  | .list item => "[" ++ item.render ++ "]"
  | .nonNull inner => inner.render ++ "!"

end TypeExpr

end GraphQLStatics
