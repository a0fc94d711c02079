import GraphQLStatics.Grammar.Value
import GraphQLStatics.Language.Definition

/-!
# Grammar of executable documents

Operations and fragments.

## Main Definitions

* `selectionSet`
* `operation`, `fragment`, `executableDefinition`
* `readExecutable`: the definitions of an executable text
-/

namespace GraphQLStatics.Grammar

/-! ### Selections -/

/-- Whether a token can begin a selection. -/
def startsSelection (token : Token) : Bool :=
  isName token || isPunct .ellipsis token

/-- Read a field whose sub-selections are read by `sub`. -/
def field (sub : Parse SelectionSet) : Parse Selection := do
  let position ← here
  let first ← name
  let second ← optional (isPunct .colon) do
    punct .colon
    name
  let arguments ← arguments
  let directives ← directives
  let selections ← optional (isPunct .openBrace) sub
  let use : FieldUse :=
    match second with
    | some name => { position, aliasName := some first, name, arguments, directives }
    | none => { position, aliasName := none, name := first, arguments, directives }
  return .field use (selections.getD .nil)

/-- Read a fragment spread or an inline fragment whose selections are read by
`sub`.  Its position is that of the token after the three dots. -/
def spreadOrInline (sub : Parse SelectionSet) : Parse Selection := do
  punct .ellipsis
  let position ← here
  if ← nextIs fun token => isName token && !isWord "on" token then
    let fragment ← name
    let directives ← directives
    return .spread { position, fragment, directives }
  else
    let condition ← optional (isWord "on") do
      keyword "on"
      name
    let directives ← directives
    let selections ← sub
    return .inline { position, condition, directives } selections

/-- Read a selection whose sub-selections are read by `sub`. -/
def selection (sub : Parse SelectionSet) : Parse Selection := do
  if ← nextIs (isPunct .ellipsis) then
    spreadOrInline sub
  else
    field sub

/-- Read a selection set of at most `n` layers. -/
def selectionSetWithin : Nat → Parse SelectionSet
  | 0 => fail
  | n + 1 => do
    let items ← bracketed .openBrace .closeBrace startsSelection
      (selection (selectionSetWithin n))
    return .ofList items

/-- Read a selection set. -/
def selectionSet : Parse SelectionSet := do
  selectionSetWithin ((← get).length + 1)

/-! ### Definitions -/

/-- Read a variable definition. -/
def variableDefinition : Parse VariableDefinition := do
  let position ← here
  punct .dollar
  let name ← name
  punct .colon
  let type ← typeExpr
  let default ← defaultValue
  return { position, name, type, default }

/-- Read an operation that begins with the keyword of its kind. -/
def operation (kind : OperationKind) : Parse Operation := do
  let position ← here
  keyword kind.keyword
  let name ← optional isName name
  let declared ← optional (isPunct .openParen) <|
    bracketed .openParen .closeParen (isPunct .dollar) variableDefinition
  let directives ← directives
  let selections ← selectionSet
  return { position, kind, name, declared := declared.getD [], directives, selections }

/-- Read a bare selection set, which is a query. -/
def shorthand : Parse Operation := do
  let position ← here
  let selections ← selectionSet
  return { position, kind := .query, name := none, declared := [], directives := [], selections }

/-- Read a fragment definition. -/
def fragment : Parse Fragment := do
  let position ← here
  keyword "fragment"
  let name ← name
  keyword "on"
  let condition ← Grammar.name
  let directives ← directives
  let selections ← selectionSet
  return { position, name, condition, directives, selections }

/-- Read an operation or a fragment. -/
def executableDefinition : Parse Definition := do
  match ← peek with
  | some (.punct .openBrace) => return .operation (← shorthand)
  | some (.name word) =>
    match OperationKind.ofKeyword? word with
    | some kind => return .operation (← operation kind)
    | none => return .fragment (← fragment)
  | _ => fail

/-- The definitions of an executable text, or the position of its fault. -/
def readExecutable (text : List Char) : Except Position (List Definition) :=
  readAll executableDefinition (lex text)

end GraphQLStatics.Grammar
