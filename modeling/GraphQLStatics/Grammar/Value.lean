import GraphQLStatics.Grammar.Basic
import GraphQLStatics.Language.Binary64
import GraphQLStatics.Language.StringValue
import GraphQLStatics.Language.TypeExpr
import GraphQLStatics.Language.Selection

/-!
# Grammar of types, values and directives

The parts that executable documents and the type system share.

## Main Definitions

* `typeExpr`
* `literal?`, `value`: values with or without variables
* `arguments`, `directives`
-/

namespace GraphQLStatics.Grammar

/-! ### Types -/

/-- Read a type of at most `n` layers. -/
def typeWithin : Nat → Parse TypeExpr
  | 0 => fail
  | n + 1 => do
    let inner ←
      if ← nextIs (isPunct .openBracket) then
        punct .openBracket
        let item ← typeWithin n
        punct .closeBracket
        pure (TypeExpr.list item)
      else
        pure (TypeExpr.named (← name))
    if ← skipIf (isPunct .bang) then
      return .nonNull inner
    else
      return inner

/-- Read a type: a name or a type in square brackets, either with an
exclamation mark after it. -/
def typeExpr : Parse TypeExpr := do
  typeWithin ((← get).length + 1)

/-! ### Values -/

/-- The number written by an integer token, if it fits into 64 bits. -/
def int64? (digits : List Char) : Option Int :=
  let n : Int :=
    if digits.head? == some '-' then -(Decimal.natOfDigits (digits.drop 1) : Int)
    else Decimal.natOfDigits digits
  let bound : Int := Nat.pow 2 63
  if -bound ≤ n && n < bound then some n else none

/-- The text of a string token. -/
def stringText? : Token → Option String
  | .string body => (StringValue.unescape? body).map String.ofList
  | .blockString body => some (String.ofList (StringValue.unblock body))
  | _ => none

/-- The value written by a name. -/
def namedValue (text : String) : Value :=
  if text = "true" then .boolean true
  else if text = "false" then .boolean false
  else if text = "null" then .null
  else .enum text

/-- The value written by a single token. -/
def literal? : Token → Option Value
  | .name text => some (namedValue text)
  | .int digits => (int64? digits).map .int
  | .float digits => (Decimal.ofLiteral? digits).map fun d => .float d.bits
  | .string body => (stringText? (.string body)).map .string
  | .blockString body => (stringText? (.blockString body)).map .string
  | .punct _ => none

/-- Whether a token can begin a value. -/
def startsValue (withVars : Bool) : Token → Bool
  | .punct .dollar => withVars
  | .punct .openBracket => true
  | .punct .openBrace => true
  | .punct _ => false
  | _ => true

/-- Read a value of at most `n` layers, with variables or without. -/
def valueWithin (withVars : Bool) : Nat → Parse Value
  | 0 => fail
  | n + 1 => do
    match ← peek with
    | some (.punct .dollar) =>
      if withVars then
        punct .dollar
        return .var (← name)
      else
        fail
    | some (.punct .openBracket) =>
      punct .openBracket
      let items ← many (startsValue withVars) (valueWithin withVars n)
      punct .closeBracket
      return .list items
    | some (.punct .openBrace) =>
      punct .openBrace
      let fields ← many isName do
        let key ← name
        punct .colon
        return (key, ← valueWithin withVars n)
      punct .closeBrace
      return .ofFields fields
    | _ => take literal?

/-- Read a value, with variables or without. -/
def value (withVars : Bool) : Parse Value := do
  valueWithin withVars ((← get).length + 1)

/-- Read the default value that may follow. -/
def defaultValue : Parse (Option Value) :=
  optional (isPunct .equals) do
    punct .equals
    value false

/-! ### Directives -/

/-- Read the arguments that may follow. -/
def arguments : Parse (List (String × Value)) := do
  let found ← optional (isPunct .openParen) <|
    bracketed .openParen .closeParen isName do
      let key ← name
      punct .colon
      return (key, ← value true)
  return found.getD []

/-- Read an applied directive. -/
def directive : Parse DirectiveUse := do
  let position ← here
  punct .atSign
  let name ← name
  let arguments ← arguments
  return { position, name, arguments }

/-- Read the directives that may follow. -/
def directives : Parse (List DirectiveUse) :=
  many (isPunct .atSign) directive

end GraphQLStatics.Grammar
