import GraphQLStatics.Files.Content

/-!
# Disks

What a program can ask of the place its files are kept in, and the names of
files.

## Main Definitions

* `Entry`: what a walk meets
* `WalkFault`, `WalkFault.message`
* `Disk`: the two questions, in any monad
* `fileExtension?`: the extension of a file name
-/

namespace GraphQLStatics

/-- Something met on a walk: the name it was met under, the full path that
leads to it, and whether it is a file. -/
structure Entry where
  name : String
  path : String
  isFile : Bool
  deriving DecidableEq, Repr

/-- Why a path leads nowhere. -/
inductive WalkFault where
  | missing
  | notADirectory
  | nameTooLong
  deriving DecidableEq, Repr

/-- The text of a fault. -/
def WalkFault.message : WalkFault → String
  | .missing => "No such file or directory (os error 2)"
  | .notADirectory => "Not a directory (os error 20)"
  | .nameTooLong => "File name too long (os error 36)"

/-- A place where files are kept. -/
structure Disk (m : Type → Type) where
  /-- What is at or under a path, a directory before what it holds. -/
  walk (path : String) : m (Except WalkFault (List Entry))
  /-- The text of the file at the full path that a walk gives it. -/
  read (path : String) : m (Except ReadFailure String)

/-- The file at a full path of a disk. -/
def Disk.source {m : Type → Type} [Monad m] (disk : Disk m) (path : String) : m SourceFile :=
  return { path, text := ← disk.read path }

/-- The extension of a file name: what follows its last dot, if anything stands
before that dot. -/
def fileExtension? (name : String) : Option String :=
  let reversed := name.toList.reverse
  match reversed.dropWhile (· ≠ '.') with
  | [] | [_] => none
  | _ => some (String.ofList (reversed.takeWhile (· ≠ '.')).reverse)

end GraphQLStatics
