import GraphQLStatics.Language.TypeExpr

/-!
# Type references

The type of a field, a parameter or a variable.  Each layer carries a flag
that says whether it admits `null`.

## Main Definitions

* `TypeRef`, `TypeRef.ofExpr`, `TypeRef.render`
* `TypeRef.innermostName`
* `TypeRef.equivalent`
* `TypeRef.fits`, `TypeRef.usageAllowed`: whether a variable may flow into an
  input position
-/

namespace GraphQLStatics

/-- A type reference; the outermost layer admits `null` if `nullable` is set. -/
inductive TypeRef where
  | named (name : String) (nullable : Bool)
  | list (item : TypeRef) (nullable : Bool)
  deriving DecidableEq, Repr

namespace TypeRef

/-- Whether the outermost layer admits `null`. -/
def nullable : TypeRef → Bool
  | .named _ nullable => nullable
  | .list _ nullable => nullable

/-- The same reference with another flag on its outermost layer. -/
def withNullable (flag : Bool) : TypeRef → TypeRef
  | .named name _ => .named name flag
  | .list item _ => .list item flag

/-- The type of a list's items. -/
def item? : TypeRef → Option TypeRef
  | .named _ _ => none
  | .list item _ => some item

/-- The name of a reference that is no list. -/
def name? : TypeRef → Option String
  | .named name _ => some name
  | .list _ _ => none

/-- The named reference within all lists. -/
def innermost : TypeRef → TypeRef
  | .named name nullable => .named name nullable
  | .list item _ => item.innermost

/-- The type name within all lists. -/
def innermostName : TypeRef → String
  | .named name _ => name
  | .list item _ => item.innermostName

/-- The number of lists around the type name. -/
def depth : TypeRef → Nat
  | .named _ _ => 0
  | .list item _ => item.depth + 1

/-- The reference written by a type expression, given the flag of its outermost
layer. -/
def ofExprWith (nullable : Bool) : TypeExpr → TypeRef
  | .named name => .named name nullable
  | .list item => .list (ofExprWith true item) nullable
  | .nonNull inner => ofExprWith false inner

/-- The reference written by a type expression. -/
def ofExpr (expr : TypeExpr) : TypeRef :=
  ofExprWith true expr

/-- The mark after a layer: an exclamation mark unless it admits `null`. -/
def mark (nullable : Bool) : String :=
  if nullable then "" else "!"

/-- The text of a type reference. -/
def render : TypeRef → String
  | .named name nullable => name ++ mark nullable
  | .list item nullable => "[" ++ item.render ++ "]" ++ mark nullable

/-- Whether two references have the same lists, flags and type name. -/
def equivalent : TypeRef → TypeRef → Bool
  | .named a m, .named b n => m == n && a == b
  | .list a m, .list b n => m == n && equivalent a b
  | _, _ => false

/-- Whether values of the first type are values of the second, where the flags
of their outermost layers are given. -/
def fits (given : TypeRef) (givenNullable : Bool) (wanted : TypeRef) (wantedNullable : Bool) :
    Bool :=
  if givenNullable && !wantedNullable then false
  else match given, wanted with
    | .named a _, .named b _ => a == b
    | .list a _, .list b _ => fits a a.nullable b b.nullable
    | _, _ => false

/-- Whether a variable of type `given` may be used where a value of type
`wanted` is expected.  A nullable variable may flow into a non-null position
only if it has a default other than `null`, or the position has a default. -/
def usageAllowed (given : TypeRef) (givenDefault : Bool) (wanted : TypeRef)
    (wantedDefault : Bool) : Bool :=
  if given.nullable && !wanted.nullable then
    (givenDefault || wantedDefault) && fits given true wanted true
  else fits given given.nullable wanted wanted.nullable

end TypeRef

end GraphQLStatics
