import GraphQLStatics.Language.Definition

/-!
# Documents

## Main Definitions

* `Document`, `Document.operations`, `Document.fragments`
* `Document.place`: a position of the document with its file
-/

namespace GraphQLStatics

/-- Definitions in order, and the file that they were loaded from. -/
structure Document where
  definitions : List Definition
  file : Option String

namespace Document

/-- The document without definitions. -/
def empty : Document := ⟨[], none⟩

/-- The operations of a document, in order. -/
def operations (doc : Document) : List Operation :=
  doc.definitions.filterMap Definition.operation?

/-- The fragments of a document, in order; a name may occur more than once. -/
def fragments (doc : Document) : List Fragment :=
  doc.definitions.filterMap Definition.fragment?

/-- A position of the document as a place. -/
def place (doc : Document) (position : Position) : Place :=
  ⟨doc.file, position⟩

end Document

end GraphQLStatics
