/-!
# Positions in source text

A `Position` is a line and a column of one text.  A `Place` adds the file the
text came from, and an `Origin` says where an element of a schema was defined:
at a place, or nowhere because it is built in.

## Main Definitions

* `Position`, `Position.render`
* `Place`, `Place.render`
* `Origin`
-/

namespace GraphQLStatics

/-- A line and a column of a source text, both counted from one. -/
structure Position where
  line : Nat
  column : Nat
  deriving DecidableEq, Repr

namespace Position

/-- The position of a text's first character. -/
def first : Position := ⟨1, 1⟩

/-- The first column of the following line. -/
def nextLine (p : Position) : Position := ⟨p.line + 1, 1⟩

/-- The position `n` columns further on the same line. -/
def right (p : Position) (n : Nat) : Position := ⟨p.line, p.column + n⟩

/-- The text of a position: line, colon, column. -/
def render (p : Position) : String :=
  toString p.line ++ ":" ++ toString p.column

end Position

/-- A position within a source that may come from a file. -/
structure Place where
  file : Option String
  position : Position
  deriving DecidableEq, Repr

namespace Place

/-- The text of a place: the file, if there is one, before the position. -/
def render (p : Place) : String :=
  match p.file with
  | some file => file ++ ":" ++ p.position.render
  | none => p.position.render

end Place

/-- Where an element of a schema was defined. -/
inductive Origin where
  | builtIn
  | source (place : Place)
  deriving DecidableEq, Repr

end GraphQLStatics
