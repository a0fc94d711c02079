import GraphQLStatics.Text.Blank

/-!
# String values

What the body of a string token denotes.

## Main Definitions

* `StringValue.unescape?`: the text of a string in single quotes
* `StringValue.unblock`: the text of a block string
-/

namespace GraphQLStatics.StringValue

/-- The value of a hexadecimal digit. -/
def hexDigit? (c : Char) : Option Nat :=
  if '0' ≤ c && c ≤ '9' then some (c.toNat - '0'.toNat)
  else if 'a' ≤ c && c ≤ 'f' then some (c.toNat - 'a'.toNat + 10)
  else if 'A' ≤ c && c ≤ 'F' then some (c.toNat - 'A'.toNat + 10)
  else none

/-- The number written by hexadecimal digits, of which there is at least
one. -/
def hexNumber? (cs : List Char) : Option Nat :=
  if cs.isEmpty then none
  else cs.foldlM (fun n c => (hexDigit? c).map (16 * n + ·)) 0

/-- The character of four characters after `\u`: a code point in hexadecimal,
where a plus sign may stand for the first digit. -/
def codePoint? (cs : List Char) : Option Char :=
  let digits := if cs.head? == some '+' then cs.drop 1 else cs
  (hexNumber? digits).bind fun n =>
    if h : n.isValidChar then some (Char.ofNatAux n h) else none

/-- The character of an escape of one letter. -/
def simpleEscape? : Char → Option Char
  | '"' => some '"'
  | '\\' => some '\\'
  | '/' => some '/'
  | 'n' => some '\n'
  | 'r' => some '\r'
  | 't' => some '\t'
  | 'f' => some '\x0c'
  | 'b' => some '\x10'
  | _ => none

/-- The text of a string in single quotes; `none` if an escape denotes no
character. -/
def unescape? : List Char → Option (List Char)
  | [] => some []
  | '\\' :: 'u' :: a :: b :: c :: d :: rest => do
    let ch ← codePoint? [a, b, c, d]
    return ch :: (← unescape? rest)
  | '\\' :: c :: rest => do
    let ch ← simpleEscape? c
    return ch :: (← unescape? rest)
  | ['\\'] => none
  | c :: rest => return c :: (← unescape? rest)

/-! ### Block strings -/

/-- The pieces of a text between line feeds. -/
def splitLines : List Char → List (List Char)
  | [] => [[]]
  | c :: rest =>
    if c == '\n' then [] :: splitLines rest
    else match splitLines rest with
      | [] => [[c]]
      | line :: lines => (c :: line) :: lines

/-- A line without the carriage return that may precede its line feed. -/
def dropReturn (line : List Char) : List Char :=
  if line.getLast? == some '\r' then line.dropLast else line

/-- The lines of a text.  A line ends with a line feed, to which a carriage
return before it belongs; an empty last line does not count. -/
def textLines (cs : List Char) : List (List Char) :=
  match (splitLines cs).reverse with
  | [] => []
  | last :: before =>
    (before.reverse.map dropReturn) ++ (if last.isEmpty then [] else [last])

/-- Whether a line holds nothing but white space. -/
def isBlankLine (line : List Char) : Bool :=
  line.all Text.isBlank

/-- The least indentation, in bytes, of the lines that are not blank. -/
def commonIndent (lines : List (List Char)) : Option Nat :=
  ((lines.filter (!isBlankLine ·)).map Text.indentBytes).min?

/-- A line without the common indentation; a shorter line is kept.  The indentation
is counted in bytes, so where lines are indented by different characters the cut may
fall within a white-space character.  Such a character goes too, although there is no
text that begins in its middle. -/
def removeIndent (indent : Nat) (line : List Char) : List Char :=
  if indent ≤ Text.byteLength line then Text.dropBytes indent line else line

/-- Every escaped triple quote replaced by a triple quote. -/
def unescapeQuotes : List Char → List Char
  | '\\' :: '"' :: '"' :: '"' :: rest => '"' :: '"' :: '"' :: unescapeQuotes rest
  | c :: rest => c :: unescapeQuotes rest
  | [] => []

/-- The lines between the first and the last that is not blank. -/
def trimBlankLines (lines : List (List Char)) : List (List Char) :=
  ((lines.dropWhile isBlankLine).reverse.dropWhile isBlankLine).reverse

/-- The text of a block string: the common indentation of all lines but the
first is removed, blank lines at either end are dropped, and an escaped triple
quote loses its backslash. -/
def unblock (cs : List Char) : List Char :=
  match textLines cs with
  | [] => []
  | first :: others =>
    let indent := (commonIndent others).getD 0
    let lines := first :: others.map (removeIndent indent)
    ['\n'].intercalate ((trimBlankLines lines).map unescapeQuotes)

end GraphQLStatics.StringValue
