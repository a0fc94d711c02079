import GraphQLStatics.Files.Disk

/-!
# Collecting files

The files to work on are looked for at and under given paths, by their
extension.

## Main Definitions

* `Collection`, `Collection.ofWalks`
* `Warning`, `Warning.message`
* `Disk.collect`: the collection of given paths
-/

namespace GraphQLStatics

/-- What the user is told besides the result. -/
inductive Warning where
  | unknownLogLevel (value : String)
  /-- A file is used although its extension is not looked for. -/
  | otherExtension (path : String) (extensions : List String)
  deriving DecidableEq, Repr

/-- The text of a warning. -/
def Warning.message : Warning → String
  | .unknownLogLevel value => "Invalid `LOG_LEVEL` environment variable value: `" ++ value ++ "`"
  | .otherExtension path extensions =>
    "Proceeding with " ++ Text.quoted path ++
      " even though it doesn't match any of the --graphql-file-exts (" ++
      ", ".intercalate (extensions.map fun ext => "`." ++ ext ++ "`") ++ ")."

/-- Files to work on. -/
structure Collection where
  /-- The full paths of the files. -/
  files : List String
  /-- The number of entries met that are no files. -/
  skipped : Nat
  warnings : List Warning
  deriving DecidableEq, Repr

namespace Collection

/-- Whether an entry is a file with one of the extensions. -/
def wanted (extensions : List String) (entry : Entry) : Bool :=
  entry.isFile && (fileExtension? entry.name).any extensions.contains

/-- The collection of what was met at and under each path.  If nothing is
wanted and the only path leads to a file, then that file is. -/
def ofWalks (extensions : List String) (walks : List (List Entry)) : Collection :=
  let met := walks.flatten
  let files := (met.filter (wanted extensions)).map Entry.path
  let skipped := met.countP (! ·.isFile)
  match files, walks with
  | [], [[entry]] =>
    if entry.isFile then
      { files := [entry.path], skipped, warnings := [.otherExtension entry.path extensions] }
    else { files, skipped, warnings := [] }
  | _, _ => { files, skipped, warnings := [] }

end Collection

/-- A path that leads nowhere, and why. -/
structure WalkFailure where
  path : String
  fault : WalkFault
  deriving DecidableEq, Repr

/-- The text of a failure. -/
def WalkFailure.message (failure : WalkFailure) : String :=
  "Encountered an error while iterating recursive filesystem entities at/under " ++
    Text.quoted failure.path ++ ": IO error for operation on " ++ failure.path ++ ": " ++
    failure.fault.message ++ ": " ++ failure.fault.message

namespace Disk

variable {m : Type → Type} [Monad m]

/-- Walk at a path. -/
def walkAt (disk : Disk m) (path : String) : ExceptT WalkFailure m (List Entry) :=
  ExceptT.mk do return (← disk.walk path).mapError (⟨path, ·⟩)

/-- The files with one of the extensions at and under paths. -/
def collect (disk : Disk m) (extensions paths : List String) :
    m (Except WalkFailure Collection) :=
  ExceptT.run do return .ofWalks extensions (← paths.mapM disk.walkAt)

end Disk

end GraphQLStatics
