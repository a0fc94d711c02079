import GraphQLStatics.Text.Position

/-!
# Tokens

The lexical elements of GraphQL source text.  Number and string tokens keep
their characters as written; what they denote is decided where a value or a
description is read.

## Main Definitions

* `Punctuator`, `Token`
* `Lexeme`: a token with its position and its span of bytes
* `Lexed`: the lexemes of a text and where reading stopped
-/

namespace GraphQLStatics

/-- The punctuation of the language. -/
inductive Punctuator where
  | openParen
  | closeParen
  | openBracket
  | closeBracket
  | openBrace
  | closeBrace
  | bang
  | dollar
  | colon
  | equals
  | atSign
  | pipe
  | ampersand
  | ellipsis
  deriving DecidableEq, Repr

namespace Punctuator

/-- The punctuator written by a single character. -/
def ofChar? : Char → Option Punctuator
  | '(' => some .openParen
  | ')' => some .closeParen
  | '[' => some .openBracket
  | ']' => some .closeBracket
  | '{' => some .openBrace
  | '}' => some .closeBrace
  | '!' => some .bang
  | '$' => some .dollar
  | ':' => some .colon
  | '=' => some .equals
  | '@' => some .atSign
  | '|' => some .pipe
  | '&' => some .ampersand
  | _ => none

/-- Whether the punctuator opens a bracket. -/
def isOpening : Punctuator → Bool
  | .openParen | .openBracket | .openBrace => true
  | _ => false

/-- Whether the punctuator closes a bracket. -/
def isClosing : Punctuator → Bool
  | .closeParen | .closeBracket | .closeBrace => true
  | _ => false

end Punctuator

/-- A lexical element. -/
inductive Token where
  | punct (p : Punctuator)
  | name (text : String)
  | int (digits : List Char)
  | float (digits : List Char)
  /-- A string in single quotes, without them and with its escapes. -/
  | string (body : List Char)
  /-- A block string, without its quotes and with its escapes. -/
  | blockString (body : List Char)
  deriving DecidableEq, Repr

namespace Token

/-- Whether a character can begin a name. -/
def isNameStart (c : Char) : Bool :=
  c == '_' || ('A' ≤ c && c ≤ 'Z') || ('a' ≤ c && c ≤ 'z')

/-- Whether a character can continue a name. -/
def isNameChar (c : Char) : Bool :=
  isNameStart c || ('0' ≤ c && c ≤ '9')

end Token

/-- A token as it stands in a text: its position and the UTF-8 byte offsets of
its first byte and of the byte after its last. -/
structure Lexeme where
  token : Token
  position : Position
  start : Nat
  stop : Nat
  deriving DecidableEq, Repr

/-- The lexemes at the beginning of a text.  Reading stops at the end of the
text, which makes it complete, or before something that is no token. -/
structure Lexed where
  lexemes : List Lexeme
  stop : Position
  complete : Bool
  deriving DecidableEq, Repr

end GraphQLStatics
