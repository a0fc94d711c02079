import GraphQLStatics.Document.Basic
import GraphQLStatics.Document.Run
import GraphQLStatics.Files.Content
import GraphQLStatics.Grammar.Executable
import GraphQLStatics.Grammar.TypeSystem

/-!
# Loading documents

A text is read as an executable document, or else as definitions of the type
system, or else as a mixture of both, run by run.

## Main Definitions

* `DocumentFailure`, `DocumentFailure.message`
* `Document.load`, `Document.loadTypeSystem`: append the definitions of a text
* `Document.loadFile`, `Document.loadFiles`: append the definitions of files
-/

namespace GraphQLStatics

/-- Why a document cannot be loaded. -/
inductive DocumentFailure where
  | malformed (file : Option String) (grammar : RunKind) (position : Position)
  | unreadable (cause : ReadFailure)
  deriving DecidableEq, Repr

/-- The text of a failure. -/
def DocumentFailure.message : DocumentFailure → String
  | .malformed file grammar position =>
    let source := match file with
      | some path => " from " ++ path
      | none => ""
    let word := match grammar with
      | .executable => "query"
      | .typeSystem => "schema"
    "Error parsing document" ++ source ++ ": " ++ word ++ " parse error: Parse error at " ++
      position.render
  | .unreadable _ => "Failure while trying to read a document file from disk"

/-- The definitions of a text of one kind, or the position of its fault. -/
def readDefinitions (kind : RunKind) (cs : List Char) : Except Position (List Definition) :=
  match kind with
  | .executable => Grammar.readExecutable cs
  | .typeSystem => (Grammar.readTypeSystem cs).map (·.map .typeSystem)

namespace Document

/-- The document with more definitions at its end. -/
def append (doc : Document) (definitions : List Definition) : Document :=
  { doc with definitions := doc.definitions ++ definitions }

/-- The definitions of a run within a text. -/
def readRun (file : Option String) (cs : List Char) (run : Run) :
    Except DocumentFailure (List Definition) :=
  (readDefinitions run.kind (run.source cs)).mapError (.malformed file run.kind)

/-- The definitions of a text that mixes both kinds. -/
def readMixed (file : Option String) (cs : List Char) (rs : List Run) :
    Except DocumentFailure (List Definition) :=
  (rs.mapM (readRun file cs)).map List.flatten

/-- The definitions of a text.  If neither grammar accepts the whole and it is
no mixture, the fault is that of the executable grammar. -/
def readText (file : Option String) (cs : List Char) :
    Except DocumentFailure (List Definition) :=
  match readDefinitions .executable cs with
  | .ok definitions => .ok definitions
  | .error position =>
    match readDefinitions .typeSystem cs with
    | .ok definitions => .ok definitions
    | .error _ =>
      let rs := runs cs
      if rs.length < 2 then .error (.malformed file .executable position)
      else readMixed file cs rs

/-- Append the definitions of a text. -/
def load (doc : Document) (text : String) : Except DocumentFailure Document :=
  (readText doc.file text.toList).map doc.append

/-- Append the definitions of a type-system text. -/
def loadTypeSystem (doc : Document) (text : String) : Except DocumentFailure Document :=
  ((readDefinitions .typeSystem text.toList).mapError (.malformed doc.file .typeSystem)).map
    doc.append

/-- Append the definitions of a file.  A document keeps the path of its first
file. -/
def loadFile (doc : Document) (file : SourceFile) : Except DocumentFailure Document :=
  match file.text with
  | .error cause => .error (.unreadable cause)
  | .ok text => { doc with file := doc.file <|> some file.path }.load text

/-- Append the definitions of files, in order. -/
def loadFiles (doc : Document) (files : List SourceFile) : Except DocumentFailure Document :=
  files.foldlM loadFile doc

end Document

end GraphQLStatics
