import GraphQLStatics.Text.Blank
import GraphQLStatics.Token.Scanner

/-!
# Runs of definitions

A source text may mix executable definitions with definitions of the type
system.  It is cut into runs of definitions of one kind by looking at its
tokens outside all brackets, without regard to either grammar.

## Main Definitions

* `RunKind`, `Run`
* `Splitter`, `Splitter.feed`: finds where definitions begin
* `runs`: the runs of a text
* `Run.source`: the text of a run, with every position kept

## Design Notes

Like the scanner of tokens, a `Splitter` reads one character at a time, so
that reading a text is a fold over its characters.  It knows less: outside
strings, comments and names every visible character stands for itself.
-/

namespace GraphQLStatics

/-- The two kinds of definition. -/
inductive RunKind where
  | executable
  | typeSystem
  deriving DecidableEq, Repr

/-- The bytes from `start` up to `stop`, which hold definitions of one kind. -/
structure Run where
  kind : RunKind
  start : Nat
  stop : Nat
  deriving DecidableEq, Repr

namespace RunKind

/-- The kind of definition that begins with a keyword. -/
def ofKeyword? (word : String) : Option RunKind :=
  if word ∈ ["fragment", "mutation", "query", "subscription"] then some .executable
  else if word ∈ ["directive", "enum", "extend", "input", "interface", "scalar", "schema",
      "type", "union"] then some .typeSystem
  else none

end RunKind

namespace Splitter

/-- The token before the one being read. -/
inductive Last where
  | closeBrace
  | closeParen
  | name (text : String)
  | symbol (c : Char)
  | string
  deriving DecidableEq, Repr

/-- Whether a keyword after such a token can begin a definition. -/
def Last.mayPrecede : Last → Bool
  | .closeBrace => true
  | .closeParen => true
  | .name text => (RunKind.ofKeyword? text).isNone && !(["implements", "on"].contains text)
  | .symbol c => !(['=', '|', '&', ':', '@', '$'].contains c)
  | .string => false

/-- What a splitter is in the middle of. -/
inductive Mode where
  | between
  | comment
  /-- A name that begins at a byte offset, latest character first. -/
  | name (start : Nat) (text : List Char)
  /-- After the quote that opens a string. -/
  | openQuote
  /-- After two quotes: an empty string, or the beginning of a block string. -/
  | emptyQuotes
  | quoted (escaped : Bool)
  | block (tail : BlockTail)
  deriving DecidableEq, Repr

end Splitter

/-- The state of looking for definitions. -/
structure Splitter where
  mode : Splitter.Mode
  /-- The byte offset of the next character. -/
  offset : Nat
  /-- The number of open brackets. -/
  depth : Nat
  last : Option Splitter.Last
  /-- Where definitions begin, latest first. -/
  starts : List (Nat × RunKind)
  deriving DecidableEq, Repr

namespace Splitter

/-- A splitter before its first character. -/
def initial : Splitter where
  mode := .between
  offset := 0
  depth := 0
  last := none
  starts := []

/-- Note that a definition begins at a byte offset. -/
def begin (s : Splitter) (start : Nat) (kind : RunKind) : Splitter :=
  { s with starts := (start, kind) :: s.starts }

/-- Complete a name.  A keyword outside brackets begins a definition, unless the
token before it rules that out. -/
def endName (s : Splitter) (start : Nat) (text : List Char) : Splitter :=
  let word := String.ofList text.reverse
  let found := if s.depth = 0 && s.last.all Last.mayPrecede then RunKind.ofKeyword? word else none
  let s := match found with
    | some kind => s.begin start kind
    | none => s
  { s with mode := .between, last := some (.name word) }

/-- Begin a string.  Outside brackets it is a description, which opens the
definition after it, unless another string stands before it. -/
def beginString (s : Splitter) : Splitter :=
  let s := if s.depth = 0 && s.last ≠ some .string then s.begin s.offset .typeSystem else s
  { s with mode := .openQuote, last := some .string }

/-- Open a bracket.  A brace outside brackets begins an operation, if nothing or
a closing brace stands before it. -/
def openBracket (s : Splitter) (c : Char) : Splitter :=
  let s :=
    if c == '{' && s.depth = 0 && (s.last = none || s.last = some .closeBrace) then
      s.begin s.offset .executable
    else s
  { s with depth := s.depth + 1, last := some (.symbol c) }

/-- Close a bracket. -/
def closeBracket (s : Splitter) (c : Char) : Splitter :=
  let last : Last := if c == '}' then .closeBrace else if c == ')' then .closeParen else .symbol c
  { s with depth := s.depth - 1, last := some last }

/-- Read a character outside strings, comments and names.  The offset is
advanced by `feed`. -/
def feedBetween (s : Splitter) (c : Char) : Splitter :=
  let s := { s with mode := .between }
  if c == '#' then { s with mode := .comment }
  else if c == '"' then s.beginString
  else if c == '{' || c == '(' || c == '[' then s.openBracket c
  else if c == '}' || c == ')' || c == ']' then s.closeBracket c
  else if Token.isNameStart c then { s with mode := .name s.offset [c] }
  else if c == ' ' || c == '\t' || c == '\n' || c == '\r' || c == ',' then s
  else if c.toNat < 128 then { s with last := some (.symbol c) }
  else s

/-- Read a character at the current offset. -/
def feedAt (s : Splitter) (c : Char) : Splitter :=
  match s.mode with
  | .between => s.feedBetween c
  | .comment => if c == '\n' || c == '\r' then { s with mode := .between } else s
  | .name start text =>
    if Token.isNameChar c then { s with mode := .name start (c :: text) }
    else (s.endName start text).feedBetween c
  | .openQuote =>
    if c == '"' then { s with mode := .emptyQuotes }
    else if c == '\n' || c == '\r' then { s with mode := .between }
    else { s with mode := .quoted (c == '\\') }
  | .emptyQuotes =>
    if c == '"' then { s with mode := .block .start }
    else s.feedBetween c
  | .quoted true => { s with mode := .quoted false }
  | .quoted false =>
    if c == '"' || c == '\n' || c == '\r' then { s with mode := .between }
    else { s with mode := .quoted (c == '\\') }
  | .block tail =>
    match tail.feed c with
    | some tail => { s with mode := .block tail }
    | none => { s with mode := .between }

/-- Read one character. -/
def feed (s : Splitter) (c : Char) : Splitter :=
  { s.feedAt c with offset := s.offset + c.utf8Size }

/-- Read the characters of a text in order. -/
def feedAll (s : Splitter) (cs : List Char) : Splitter :=
  cs.foldl feed s

/-- Where definitions begin, once the text has ended. -/
def finish (s : Splitter) : List (Nat × RunKind) :=
  match s.mode with
  | .name start text => (s.endName start text).starts.reverse
  | _ => s.starts.reverse

end Splitter

/-! ### Runs of a text -/

/-- Where the definitions of a text begin. -/
def definitionStarts (cs : List Char) : List (Nat × RunKind) :=
  (Splitter.initial.feedAll cs).finish

/-- The runs up to byte `total`, of which the first begins at `start`. -/
def runsFrom (total start : Nat) (kind : RunKind) : List (Nat × RunKind) → List Run
  | [] => [⟨kind, start, total⟩]
  | (next, other) :: rest =>
    if other = kind then runsFrom total start kind rest
    else ⟨kind, start, next⟩ :: runsFrom total next other rest

/-- The runs of a text.  They cover it all, and what precedes the first
definition belongs to its run. -/
def runs (cs : List Char) : List Run :=
  match definitionStarts cs with
  | [] => []
  | (_, kind) :: rest => runsFrom (Text.byteLength cs) 0 kind rest

/-- What stands for a character before a run: characters that set lines and
columns are kept, and a space stands for any other. -/
def blanked (c : Char) : Char :=
  if c == '\n' || c == '\r' || c == '\t' || c == '\uFEFF' then c else ' '

/-- The text of a run after blanks for what precedes it, so that its positions
are those of the whole text. -/
def Run.source (run : Run) (cs : List Char) : List Char :=
  (Text.takeBytes run.start cs).map blanked ++
    Text.takeBytes (run.stop - run.start) (Text.dropBytes run.start cs)

end GraphQLStatics
