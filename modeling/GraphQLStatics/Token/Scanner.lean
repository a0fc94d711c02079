import GraphQLStatics.Token.Number

/-!
# Reading tokens

A `Scanner` reads a text one character at a time.  `Scanner.feed` is a single
step, so reading a text is a fold over its characters and reading `a ++ b` is
reading `a` and then `b`.

## Main Definitions

* `BlockTail`: how far the closing quotes of a block string have come
* `Scanner.Mode`, `Scanner`, `Scanner.feed`, `Scanner.finish`
* `lex`: the lexemes of a text

## Design Notes

Positions count characters, with these exceptions between tokens: a tabulator
is eight columns wide, and a carriage return and a byte order mark have no
width.  A comment has no width either; it ends with the first line feed or
carriage return, and that begins a new line.

At most fifty brackets may be open at once.  `Scanner.room` counts how many
more may be opened; a closing bracket gives one back.
-/

namespace GraphQLStatics

/-- The end of a block string is the first run of three quotes that no
backslash precedes.  A `BlockTail` holds the quotes of the run being read, and
whether a backslash stands directly before them. -/
structure BlockTail where
  quotes : Nat
  slash : Bool
  deriving DecidableEq, Repr

namespace BlockTail

/-- No quote and no backslash has been read. -/
def start : BlockTail := ⟨0, false⟩

/-- Read a character of a block string; `none` when it closes the string. -/
def feed (t : BlockTail) (c : Char) : Option BlockTail :=
  if c == '"' then
    if t.quotes < 2 then some { t with quotes := t.quotes + 1 }
    else if t.slash then some start
    else none
  else some ⟨0, c == '\\'⟩

end BlockTail

namespace Scanner

/-- What a scanner is in the middle of.  Texts are kept latest character
first. -/
inductive Mode where
  | blank
  | comment
  | name (text : List Char)
  | number (text : List Char)
  | dots (count : Nat)
  | quoted (body : List Char) (escaped : Bool)
  /-- After two quotes: an empty string, or the beginning of a block string. -/
  | emptyQuotes
  | block (body : List Char) (tail : BlockTail)
  /-- Something that begins at the token's start is no token. -/
  | stuck
  deriving DecidableEq, Repr

end Scanner

/-- The state of reading a text. -/
structure Scanner where
  mode : Scanner.Mode
  /-- The position of the next character. -/
  position : Position
  /-- The byte offset of the next character. -/
  offset : Nat
  /-- The position at which the token being read begins. -/
  start : Position
  /-- The byte offset at which the token being read begins. -/
  startOffset : Nat
  /-- How many more brackets may be opened. -/
  room : Nat
  /-- The lexemes read so far, latest first. -/
  lexemes : List Lexeme
  deriving DecidableEq, Repr

namespace Scanner

/-- The number of brackets that may be open at once. -/
def maxDepth : Nat := 50

/-- A scanner before its first character. -/
def initial : Scanner where
  mode := .blank
  position := .first
  offset := 0
  start := .first
  startOffset := 0
  room := maxDepth
  lexemes := []

/-- The position after a character of a token. -/
def afterTokenChar (p : Position) (c : Char) : Position :=
  if c == '\n' then p.nextLine else p.right 1

/-- The position after a character that may stand between tokens; `none` for
any other character. -/
def afterBlank? (p : Position) : Char → Option Position
  | ' ' => some (p.right 1)
  | ',' => some (p.right 1)
  | '\t' => some (p.right 8)
  | '\n' => some p.nextLine
  | '\r' => some p
  | '\uFEFF' => some p
  | _ => none

/-- Read a character of the current token, which then goes on as `mode`. -/
def extend (s : Scanner) (mode : Mode) (c : Char) : Scanner :=
  { s with mode, position := afterTokenChar s.position c, offset := s.offset + c.utf8Size }

/-- Complete the current token. -/
def emit (s : Scanner) (token : Token) : Scanner :=
  { s with
    mode := .blank
    lexemes := ⟨token, s.start, s.startOffset, s.offset⟩ :: s.lexemes }

/-- Give up on the current token. -/
def fail (s : Scanner) : Scanner :=
  { s with mode := .stuck }

/-- Complete a one-character token. -/
def punctuate (s : Scanner) (p : Punctuator) (c : Char) : Scanner :=
  if p.isOpening then
    if s.room = 0 then s.fail
    else { s.extend .blank c with room := s.room - 1 }.emit (.punct p)
  else if p.isClosing then { s.extend .blank c with room := s.room + 1 }.emit (.punct p)
  else (s.extend .blank c).emit (.punct p)

/-- Read the first character of a token. -/
def feedStart (s : Scanner) (c : Char) : Scanner :=
  let s := { s with start := s.position, startOffset := s.offset }
  if c == '"' then s.extend (.quoted [] false) c
  else if c == '.' then s.extend (.dots 1) c
  else if Token.isNameStart c then s.extend (.name [c]) c
  else if c == '-' || c.isDigit then s.extend (.number [c]) c
  else match Punctuator.ofChar? c with
    | some p => s.punctuate p c
    | none => s.fail

/-- Read a character that follows a complete token or white space. -/
def feedBlank (s : Scanner) (c : Char) : Scanner :=
  if c == '#' then { s with mode := .comment, offset := s.offset + c.utf8Size }
  else match afterBlank? s.position c with
    | some position => { s with mode := .blank, position, offset := s.offset + c.utf8Size }
    | none => s.feedStart c

/-- Read one character. -/
def feed (s : Scanner) (c : Char) : Scanner :=
  match s.mode with
  | .stuck => s
  | .blank => s.feedBlank c
  | .comment =>
    if c == '\n' || c == '\r' then
      { s with mode := .blank, position := s.position.nextLine, offset := s.offset + c.utf8Size }
    else { s with offset := s.offset + c.utf8Size }
  | .name text =>
    if Token.isNameChar c then s.extend (.name (c :: text)) c
    else (s.emit (.name (String.ofList text.reverse))).feedBlank c
  | .number text =>
    if Token.endsNumber c then
      match Token.ofNumber? text.reverse with
      | some token => (s.emit token).feedBlank c
      | none => s.fail
    else s.extend (.number (c :: text)) c
  | .dots count =>
    if c == '.' then
      if count < 2 then s.extend (.dots (count + 1)) c
      else (s.extend .blank c).emit (.punct .ellipsis)
    else s.fail
  | .quoted body escaped =>
    if c == '\n' then s.fail
    else if c == '"' && !escaped then
      if body.isEmpty then s.extend .emptyQuotes c
      else (s.extend .blank c).emit (.string body.reverse)
    else s.extend (.quoted (c :: body) (!escaped && c == '\\')) c
  | .emptyQuotes =>
    if c == '"' then s.extend (.block [] .start) c
    else (s.emit (.string [])).feedBlank c
  | .block body tail =>
    match tail.feed c with
    | some tail => s.extend (.block (c :: body) tail) c
    | none => (s.extend .blank c).emit (.blockString (body.drop 2).reverse)

/-- What has been read when the text ends. -/
def finish (s : Scanner) : Lexed :=
  match s.mode with
  | .blank | .comment => ⟨s.lexemes.reverse, s.position, true⟩
  | .name text => ⟨(s.emit (.name (String.ofList text.reverse))).lexemes.reverse, s.position, true⟩
  | .number text =>
    match Token.ofNumber? text.reverse with
    | some token => ⟨(s.emit token).lexemes.reverse, s.position, true⟩
    | none => ⟨s.lexemes.reverse, s.start, false⟩
  | .emptyQuotes => ⟨(s.emit (.string [])).lexemes.reverse, s.position, true⟩
  | .dots _ | .quoted _ _ | .block _ _ | .stuck => ⟨s.lexemes.reverse, s.start, false⟩

/-- Read the characters of a text in order. -/
def feedAll (s : Scanner) (cs : List Char) : Scanner :=
  cs.foldl feed s

@[simp] theorem feedAll_nil (s : Scanner) : s.feedAll [] = s := rfl

@[simp] theorem feedAll_cons (s : Scanner) (c : Char) (cs : List Char) :
    s.feedAll (c :: cs) = (s.feed c).feedAll cs := rfl

theorem feedAll_append (s : Scanner) (a b : List Char) :
    s.feedAll (a ++ b) = (s.feedAll a).feedAll b :=
  List.foldl_append

end Scanner

/-- The lexemes of a text. -/
def lex (cs : List Char) : Lexed :=
  (Scanner.initial.feedAll cs).finish

end GraphQLStatics
