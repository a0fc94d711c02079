import GraphQLStatics.Grammar.Value
import GraphQLStatics.Language.Definition

/-!
# Grammar of the type system

Definitions of types and directives, extensions of types, and root blocks.

## Main Definitions

* `typeDefinition`, `extension`, `directiveDefinition`, `rootBlock`
* `typeSystemDefinition`
* `readTypeSystem`: the definitions of a type-system text

## Design Notes

A definition may have a description before it.  Its position is that of its
keyword, while the position of a field, an argument or an enum value is that of
its description, if there is one.  Root blocks and extensions have no
description.
-/

namespace GraphQLStatics.Grammar

/-- Whether a token can begin a description. -/
def startsDescription : Token → Bool
  | .string _ => true
  | .blockString _ => true
  | _ => false

/-- Read the description that may follow. -/
def description : Parse (Option String) :=
  optional startsDescription (take stringText?)

/-- Whether a token can begin a described name. -/
def startsMember (token : Token) : Bool :=
  isName token || startsDescription token

/-! ### Parts of definitions -/

/-- Read an argument or an input field. -/
def inputValue : Parse InputValueDefinition := do
  let position ← here
  let _ ← description
  let name ← name
  punct .colon
  let type ← typeExpr
  let default ← defaultValue
  let _ ← directives
  return { position, name, type, default }

/-- Read the parameters that may follow. -/
def parameters : Parse (List InputValueDefinition) := do
  let found ← optional (isPunct .openParen) <|
    bracketed .openParen .closeParen startsMember inputValue
  return found.getD []

/-- Read a field definition. -/
def fieldDefinition : Parse FieldDefinition := do
  let position ← here
  let _ ← description
  let name ← name
  let parameters ← parameters
  punct .colon
  let type ← typeExpr
  let _ ← directives
  return { position, name, parameters, type }

/-- Read an enum value. -/
def enumValue : Parse String := do
  let _ ← description
  let name ← name
  let _ ← directives
  return name

/-- Read the members in braces that may follow. -/
def members {α : Type} (item : Parse α) : Parse (List α) := do
  let found ← optional (isPunct .openBrace) <|
    bracketed .openBrace .closeBrace startsMember item
  return found.getD []

/-- Read names with a separator between them, which may also precede them. -/
def separatedNames (separator : Punctuator) : Parse (List String) := do
  let _ ← skipIf (isPunct separator)
  separated separator name

/-- Read the interfaces that may follow. -/
def interfaces : Parse (List String) := do
  let found ← optional (isWord "implements") do
    keyword "implements"
    separatedNames .ampersand
  return found.getD []

/-! ### Types -/

/-- The keywords that begin a definition of a type. -/
inductive TypeKeyword where
  | scalar
  | type
  | interface
  | union
  | enum
  | input
  deriving DecidableEq, Repr

/-- The keyword written by a token. -/
def typeKeyword? : Token → Option TypeKeyword
  | .name text =>
    if text = "scalar" then some .scalar
    else if text = "type" then some .type
    else if text = "interface" then some .interface
    else if text = "union" then some .union
    else if text = "enum" then some .enum
    else if text = "input" then some .input
    else none
  | _ => none

/-- Read what follows the name of a type: its directives and its contents.
Interfaces that an interface implements are not kept. -/
def typeBody : TypeKeyword → Parse (List DirectiveUse × TypeBody)
  | .scalar => do
    let directives ← directives
    return (directives, .scalar)
  | .type => do
    let interfaces ← interfaces
    let directives ← directives
    return (directives, .object interfaces (← members fieldDefinition))
  | .interface => do
    let _ ← interfaces
    let directives ← directives
    return (directives, .interface (← members fieldDefinition))
  | .union => do
    let directives ← directives
    let found ← optional (isPunct .equals) do
      punct .equals
      separatedNames .pipe
    return (directives, .union (found.getD []))
  | .enum => do
    let directives ← directives
    return (directives, .enum (← members enumValue))
  | .input => do
    let directives ← directives
    return (directives, .inputObject (← members inputValue))

/-- Read a definition of a type from its keyword on, and the directives applied
to it. -/
def typeDefinition : Parse (List DirectiveUse × TypeDefinition) := do
  let position ← here
  let kind ← take typeKeyword?
  let name ← name
  let (directives, body) ← typeBody kind
  return (directives, { position, name, body })

/-- Whether a definition has no contents. -/
def isEmptyBody : TypeBody → Bool
  | .scalar => true
  | .object interfaces fields => interfaces.isEmpty && fields.isEmpty
  | .interface fields => fields.isEmpty
  | .union members => members.isEmpty
  | .enum values => values.isEmpty
  | .inputObject fields => fields.isEmpty

/-- Read an extension of a type, which has to add something to it. -/
def extension : Parse TypeDefinition := do
  keyword "extend"
  let (directives, definition) ← typeDefinition
  if directives.isEmpty && isEmptyBody definition.body then
    throw (.lexeme definition.position)
  else
    return definition

/-! ### Directives and root blocks -/

/-- The location named by a token. -/
def location? : Token → Option DirectiveLocation
  | .name text => DirectiveLocation.ofName? text
  | _ => none

/-- Read the locations that may follow. -/
def locations : Parse (List DirectiveLocation) := do
  let found ← optional (fun token => isName token || isPunct .pipe token) do
    let _ ← skipIf (isPunct .pipe)
    separated .pipe (take location?)
  return found.getD []

/-- Read a definition of a directive from its keyword on. -/
def directiveDefinition : Parse DirectiveDefinition := do
  let position ← here
  keyword "directive"
  punct .atSign
  let name ← name
  let parameters ← parameters
  let repeatable ← skipIf (isWord "repeatable")
  keyword "on"
  let locations ← locations
  return { position, name, parameters, repeatable, locations }

/-- Add an entry to a root block; `none` if its key is no kind of operation or
has an entry already. -/
def addRoot? (block : RootBlock) (entry : String × String) : Option RootBlock :=
  match OperationKind.ofKeyword? entry.1 with
  | none => none
  | some kind =>
    if (block.root kind).isSome then none
    else match kind with
      | .query => some { block with query := some entry.2 }
      | .mutation => some { block with mutation := some entry.2 }
      | .subscription => some { block with subscription := some entry.2 }

/-- Read a root block. -/
def rootBlock : Parse RootBlock := do
  let position ← here
  keyword "schema"
  let _ ← directives
  punct .openBrace
  let entries ← many isName do
    let key ← name
    punct .colon
    return (key, ← name)
  punct .closeBrace
  let empty : RootBlock := { position, query := none, mutation := none, subscription := none }
  match entries.foldlM addRoot? empty with
  | some block => return block
  | none => throw (.lexeme position)

/-! ### Definitions -/

/-- Read a definition of the type system. -/
def typeSystemDefinition : Parse TypeSystemDefinition := do
  if ← nextIs (isWord "schema") then
    return .roots (← rootBlock)
  else if ← nextIs (isWord "extend") then
    return .extension (← extension)
  else
    let _ ← description
    if ← nextIs (isWord "directive") then
      return .directive (← directiveDefinition)
    else
      let (_, definition) ← typeDefinition
      return .type definition

/-- The definitions of a type-system text, or the position of its fault. -/
def readTypeSystem (text : List Char) : Except Position (List TypeSystemDefinition) :=
  readAll typeSystemDefinition (lex text)

end GraphQLStatics.Grammar
