import GraphQLStatics.Language.StringValue

/-!
# JSON

JSON values with their reader and printer.  A number is kept as it is written,
so that an integer literal can be told from a fraction or an exponent.

## Main Definitions

* `Json`
* `Json.read?`: the value written by a text
* `Json.render`: the text of a value
-/

namespace GraphQLStatics

/-- A JSON value.  The members of an object are in the order of the text. -/
inductive Json where
  | null
  | bool (b : Bool)
  | number (literal : String)
  | string (text : String)
  | array (items : List Json)
  | object (members : List (String × Json))
  deriving Inhabited

namespace Json

/-- The number `n`. -/
def nat (n : Nat) : Json :=
  .number (toString n)

/-- A value or `null`. -/
def option {α : Type} (f : α → Json) : Option α → Json
  | some a => f a
  | none => .null

/-- The members of an object under a key. -/
def membersAt (key : String) : List (String × Json) → List Json
  | [] => []
  | (name, value) :: rest =>
    if name = key then value :: membersAt key rest else membersAt key rest

/-- The only member of an object under a key. -/
def get? (key : String) : Json → Option Json
  | .object members =>
    match membersAt key members with
    | [value] => some value
    | _ => none
  | _ => none

/-- The text of a string. -/
def text? : Json → Option String
  | .string text => some text
  | _ => none

/-- The truth value of a literal. -/
def bool? : Json → Option Bool
  | .bool b => some b
  | _ => none

/-- The items of an array. -/
def items? : Json → Option (List Json)
  | .array items => some items
  | _ => none

mutual

/-- The number of layers of a value. -/
def depth : Json → Nat
  | .array items => itemDepth items + 1
  | .object members => memberDepth members + 1
  | _ => 1

/-- The greatest number of layers of some items. -/
def itemDepth : List Json → Nat
  | [] => 0
  | item :: rest => max item.depth (itemDepth rest)

/-- The greatest number of layers of some members. -/
def memberDepth : List (String × Json) → Nat
  | [] => 0
  | (_, value) :: rest => max value.depth (memberDepth rest)

end

/-! ### Reading -/

/-- Whether a character is white space in JSON. -/
def isSpace (c : Char) : Bool :=
  c == ' ' || c == '\t' || c == '\n' || c == '\r'

/-- The text after leading white space. -/
def skipSpaces (cs : List Char) : List Char :=
  cs.dropWhile isSpace

/-- The value of four hexadecimal digits. -/
def hexUnit? (a b c d : Char) : Option Nat :=
  StringValue.hexNumber? [a, b, c, d]

/-- The character of a code point. -/
def char? (n : Nat) : Option Char :=
  if h : n.isValidChar then some (Char.ofNatAux n h) else none

/-- The character of an escape of one letter. -/
def simpleEscape? : Char → Option Char
  | '"' => some '"'
  | '\\' => some '\\'
  | '/' => some '/'
  | 'b' => some '\x08'
  | 'f' => some '\x0c'
  | 'n' => some '\n'
  | 'r' => some '\r'
  | 't' => some '\t'
  | _ => none

/-- The rest of a string after its opening quote, and the text after it.  The
characters read before are in `done`, latest first. -/
def readString? (done : List Char) : List Char → Option (String × List Char)
  | [] => none
  | '"' :: rest => some (String.ofList done.reverse, rest)
  | '\\' :: 'u' :: a :: b :: c :: d :: '\\' :: 'u' :: e :: f :: g :: h :: rest => do
    let high ← hexUnit? a b c d
    if 0xD800 ≤ high && high < 0xDC00 then
      let low ← hexUnit? e f g h
      if 0xDC00 ≤ low && low < 0xE000 then
        let ch ← char? (0x10000 + (high - 0xD800) * 0x400 + (low - 0xDC00))
        readString? (ch :: done) rest
      else none
    else
      let ch ← char? high
      readString? (ch :: done) ('\\' :: 'u' :: e :: f :: g :: h :: rest)
  | '\\' :: 'u' :: a :: b :: c :: d :: rest => do
    let ch ← (hexUnit? a b c d).bind char?
    readString? (ch :: done) rest
  | '\\' :: c :: rest => do
    let ch ← simpleEscape? c
    readString? (ch :: done) rest
  | c :: rest => if c.toNat < 0x20 then none else readString? (c :: done) rest

/-- Whether a character can be part of a number. -/
def isNumberChar (c : Char) : Bool :=
  c.isDigit || c == '-' || c == '+' || c == '.' || c == 'e' || c == 'E'

/-- The text after a given word. -/
def skipWord? (word : List Char) (cs : List Char) : Option (List Char) :=
  if word.isPrefixOf cs then some (cs.drop word.length) else none

/-- Read items with commas between them up to a closing bracket, at most `n` of
them. -/
def readItems? {α : Type} (closing : Char) (item : List Char → Option (α × List Char)) :
    Nat → List Char → Option (List α × List Char)
  | 0, _ => none
  | n + 1, cs => do
    let (a, rest) ← item cs
    match skipSpaces rest with
    | ',' :: rest =>
      let (others, rest) ← readItems? closing item n rest
      return (a :: others, rest)
    | c :: rest => if c == closing then some ([a], rest) else none
    | [] => none

/-- Read the items within brackets, at most `n` of them, after the opening
bracket. -/
def readBracketed? {α : Type} (closing : Char) (item : List Char → Option (α × List Char))
    (n : Nat) (cs : List Char) : Option (List α × List Char) :=
  match skipSpaces cs with
  | [] => none
  | c :: rest => if c == closing then some ([], rest) else readItems? closing item n (c :: rest)

/-- Read a member of an object whose value is read by `value`. -/
def readMember? (value : List Char → Option (Json × List Char)) (cs : List Char) :
    Option ((String × Json) × List Char) :=
  match skipSpaces cs with
  | '"' :: rest => do
    let (key, rest) ← readString? [] rest
    match skipSpaces rest with
    | ':' :: rest =>
      let (v, rest) ← value rest
      return ((key, v), rest)
    | _ => none
  | _ => none

/-- Read a value of at most `n` layers, each of them with less than `n` items. -/
def readValue? : Nat → List Char → Option (Json × List Char)
  | 0, _ => none
  | n + 1, cs =>
    match skipSpaces cs with
    | [] => none
    | '"' :: rest => (readString? [] rest).map fun (text, rest) => (.string text, rest)
    | '[' :: rest =>
      (readBracketed? ']' (readValue? n) n rest).map fun (items, rest) => (.array items, rest)
    | '{' :: rest =>
      (readBracketed? '}' (readMember? (readValue? n)) n rest).map fun (members, rest) =>
        (.object members, rest)
    | 'n' :: rest => (skipWord? ['u', 'l', 'l'] rest).map fun rest => (.null, rest)
    | 't' :: rest => (skipWord? ['r', 'u', 'e'] rest).map fun rest => (.bool true, rest)
    | 'f' :: rest => (skipWord? ['a', 'l', 's', 'e'] rest).map fun rest => (.bool false, rest)
    | c :: rest =>
      if c == '-' || c.isDigit then
        some (.number (String.ofList ((c :: rest).takeWhile isNumberChar)),
          (c :: rest).dropWhile isNumberChar)
      else none

/-- The value written by a text. -/
def read? (text : String) : Option Json :=
  let cs := text.toList
  match readValue? (cs.length + 1) cs with
  | some (value, rest) => if (skipSpaces rest).isEmpty then some value else none
  | none => none

/-! ### Printing -/

/-- A hexadecimal number of four digits. -/
def hex4 (n : Nat) : List Char :=
  let digits := Nat.toDigits 16 n
  List.replicate (4 - digits.length) '0' ++ digits

/-- A character as it stands in a string. -/
def escaped (c : Char) : List Char :=
  if c == '"' then ['\\', '"']
  else if c == '\\' then ['\\', '\\']
  else if c.toNat < 0x20 then ['\\', 'u'] ++ hex4 c.toNat
  else [c]

/-- A string in quotes. -/
def quote (text : String) : String :=
  String.ofList ('"' :: (text.toList.flatMap escaped ++ ['"']))

mutual

/-- The pieces of a value's text, before those of `after`. -/
def pieces (after : List String) : Json → List String
  | .null => "null" :: after
  | .bool true => "true" :: after
  | .bool false => "false" :: after
  | .number literal => literal :: after
  | .string text => quote text :: after
  | .array items => "[" :: itemPieces true ("]" :: after) items
  | .object members => "\x7b" :: memberPieces true ("\x7d" :: after) members

/-- The pieces of array items; all but the first follow a comma. -/
def itemPieces (first : Bool) (after : List String) : List Json → List String
  | [] => after
  | item :: rest =>
    let text := pieces (itemPieces false after rest) item
    if first then text else "," :: text

/-- The pieces of object members; all but the first follow a comma. -/
def memberPieces (first : Bool) (after : List String) : List (String × Json) → List String
  | [] => after
  | (key, value) :: rest =>
    let text := quote key :: ":" :: pieces (memberPieces false after rest) value
    if first then text else "," :: text

end

/-- The text of a value, without white space. -/
def render (value : Json) : String :=
  String.join (pieces [] value)

end Json

end GraphQLStatics
