import GraphQLStatics.Text.Quoted
import GraphQLStatics.Text.Utf8

/-!
# File contents

The content of a file as text, or why it cannot be read as text.

## Main Definitions

* `ReadFailure`, `ReadFailure.message`
* `textOfBytes`
* `SourceFile`: a path and what was read there
-/

namespace GraphQLStatics

/-- Why the content of a file cannot be read as text. -/
inductive ReadFailure where
  | notAFile (path : String)
  | notText (path : String) (fault : Utf8.Fault)
  deriving DecidableEq, Repr

/-- The text of a failure. -/
def ReadFailure.message : ReadFailure → String
  | .notAFile path => Text.quoted path ++ " is not a file"
  | .notText path fault =>
    "Unable to decode " ++ Text.quoted path ++ " as utf-8: " ++ fault.message

/-- The content of a file as text. -/
def textOfBytes (path : String) (bytes : List UInt8) : Except ReadFailure String :=
  (Utf8.decode bytes).mapError (.notText path)

/-- A path and what was read there. -/
structure SourceFile where
  path : String
  text : Except ReadFailure String

end GraphQLStatics
