import GraphQLStatics.CommandLine.Run

/-!
# The `graphql` command

Runs the command on the files of the machine.
-/

namespace GraphQLStatics

/-- Walk at a full path, which was met under a name. -/
partial def walkDirectory (name path : String) : IO (List Entry) := do
  let full ← IO.FS.realPath path
  if ← full.isDir then
    let below ← (← full.readDir).toList.mapM fun entry =>
      walkDirectory entry.fileName entry.path.toString
    return { name, path := full.toString, isFile := false } :: below.flatten
  else
    return [{ name, path := full.toString, isFile := true }]

/-- The files of the machine. -/
def machineDisk : Disk IO where
  walk path := do
    let name := ((Text.fields '/' path).filter (· ≠ "")).getLastD ""
    try
      -- Opening tells why a path leads nowhere.
      let _ ← IO.FS.Handle.mk path .read
      return .ok (← walkDirectory name path)
    catch
      | .noFileOrDirectory .. => return .error .missing
      | .invalidArgument .. => return .error .nameTooLong
      | _ => return .error .notADirectory
  read path := do
    try
      let full ← IO.FS.realPath path
      if ← full.isDir then return .error (.notAFile path)
      return textOfBytes path (← IO.FS.readBinFile full).toList
    catch _ => return .error (.notAFile path)

end GraphQLStatics

open GraphQLStatics in
/-- Run the command and print what comes of it. -/
def main (arguments : List String) : IO UInt32 := do
  let outcome ← runArguments machineDisk (← IO.getEnv "LOG_LEVEL") arguments
  match outcome with
  | .refused => HelpTopic.program.lines.forM IO.eprintln
  | .finished _ output errors warnings =>
    (warnings.map fun warning => " WARN " ++ warning.message).forM IO.println
    output.forM IO.println
    errors.forM IO.eprintln
  return outcome.exitCode
