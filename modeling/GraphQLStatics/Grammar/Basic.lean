import GraphQLStatics.Token.Scanner

/-!
# Predictive parsing

A `Parse` reads from a list of lexemes.  It looks at no more than the next
lexeme to choose what to read, and never goes back, so the fault of a text that
is not well formed lies at the first lexeme that cannot continue it.

## Main Definitions

* `Fault`, `Parse`
* `peek`, `take`, `punct`, `name`, `keyword`: single lexemes
* `many`, `many1`: repetition while the next token can begin an item
* `readAll`: the items of a whole text

## Design Notes

Every item begins with a lexeme of its own, so the number of lexemes left
bounds the length of a repetition and the depth of a nesting.
-/

namespace GraphQLStatics.Grammar

/-- Where a text stops being well formed: at a lexeme, or where its lexemes
end. -/
inductive Fault where
  | lexeme (position : Position)
  | ending
  deriving DecidableEq, Repr

/-- A reader of lexemes. -/
abbrev Parse := StateT (List Lexeme) (Except Fault)

/-- Fail at the next lexeme. -/
def fail {α : Type} : Parse α := fun
  | [] => .error .ending
  | lexeme :: _ => .error (.lexeme lexeme.position)

/-- The next token, which is left in place. -/
def peek : Parse (Option Token) := fun lexemes =>
  .ok (lexemes.head?.map Lexeme.token, lexemes)

/-- Whether the next token satisfies `p`. -/
def nextIs (p : Token → Bool) : Parse Bool := fun lexemes =>
  .ok (lexemes.head?.any fun lexeme => p lexeme.token, lexemes)

/-- The position of the next lexeme. -/
def here : Parse Position := fun
  | [] => .error .ending
  | lexeme :: rest => .ok (lexeme.position, lexeme :: rest)

/-- Read the next token, which has to be one that `f` accepts. -/
def take {α : Type} (f : Token → Option α) : Parse α := fun
  | [] => .error .ending
  | lexeme :: rest =>
    match f lexeme.token with
    | some a => .ok (a, rest)
    | none => .error (.lexeme lexeme.position)

/-- Whether a token is the punctuator `p`. -/
def isPunct (p : Punctuator) (token : Token) : Bool :=
  token = .punct p

/-- Whether a token is a name. -/
def isName : Token → Bool
  | .name _ => true
  | _ => false

/-- Whether a token is the name `word`. -/
def isWord (word : String) (token : Token) : Bool :=
  token = .name word

/-- Read the punctuator `p`. -/
def punct (p : Punctuator) : Parse Unit :=
  take fun token => if isPunct p token then some () else none

/-- Read a name. -/
def name : Parse String :=
  take fun
    | .name text => some text
    | _ => none

/-- Read the name `word`. -/
def keyword (word : String) : Parse Unit :=
  take fun token => if isWord word token then some () else none

/-- Read the next token if it satisfies `p`, and say whether it does. -/
def skipIf (p : Token → Bool) : Parse Bool := do
  if ← nextIs p then
    take fun _ => some true
  else
    return false

/-- Read `item` if the next token can begin it. -/
def optional {α : Type} (starts : Token → Bool) (item : Parse α) : Parse (Option α) := do
  if ← nextIs starts then
    return some (← item)
  else
    return none

/-- Read at most `n` items, as long as the next token can begin one. -/
def manyWithin {α : Type} (starts : Token → Bool) (item : Parse α) : Nat → Parse (List α)
  | 0 => return []
  | n + 1 => do
    if ← nextIs starts then
      let a ← item
      return a :: (← manyWithin starts item n)
    else
      return []

/-- Read items as long as the next token can begin one. -/
def many {α : Type} (starts : Token → Bool) (item : Parse α) : Parse (List α) := do
  manyWithin starts item (← get).length

/-- Read an item, and more as long as the next token can begin one. -/
def many1 {α : Type} (starts : Token → Bool) (item : Parse α) : Parse (List α) := do
  let a ← item
  return a :: (← many starts item)

/-- Read an item, and more after each occurrence of the punctuator. -/
def separated {α : Type} (separator : Punctuator) (item : Parse α) : Parse (List α) := do
  let a ← item
  let others ← many (isPunct separator) do
    punct separator
    item
  return a :: others

/-- Read items within brackets, of which there is at least one. -/
def bracketed {α : Type} (opening closing : Punctuator) (starts : Token → Bool)
    (item : Parse α) : Parse (List α) := do
  punct opening
  let items ← many1 starts item
  punct closing
  return items

/-- Read the items of a whole text, of which there is at least one.  A fault is
given by its position; the ending of an incomplete list of lexemes is where
reading them stopped. -/
def readAll {α : Type} (item : Parse α) (lexed : Lexed) : Except Position (List α) :=
  match many1 (fun _ => true) item lexed.lexemes with
  | .ok (items, []) => if lexed.complete then .ok items else .error lexed.stop
  | .ok (_, lexeme :: _) => .error lexeme.position
  | .error (.lexeme position) => .error position
  | .error .ending => .error lexed.stop

end GraphQLStatics.Grammar
