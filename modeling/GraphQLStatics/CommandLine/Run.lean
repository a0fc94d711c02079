import GraphQLStatics.CommandLine.Arguments
import GraphQLStatics.CommandLine.Collection
import GraphQLStatics.CommandLine.Report
import GraphQLStatics.Schema.Draft
import GraphQLStatics.Text.Blank

/-!
# Running the command

What the `graphql` command prints, and whether it succeeds.

## Main Definitions

* `CommandFailure`, `CommandFailure.message`
* `CommandOutcome`, `CommandOutcome.exitCode`
* `ValidateCommand.run`: check the documents that a command names
* `Request.run`, `runArguments`
-/

namespace GraphQLStatics

/-- Why a command ends before any document is checked. -/
inductive CommandFailure where
  | unwalkable (failure : WalkFailure)
  | schemaNotLoaded (failure : SchemaFailure)
  | schemaNotBuilt (failure : SchemaFailure)

/-- The text of a schema's failure and of what caused it. -/
def SchemaFailure.fullMessage (failure : SchemaFailure) : String :=
  match failure with
  | .unreadable cause => failure.message ++ ": " ++ cause.message
  | _ => failure.message

/-- The text of a failure. -/
def CommandFailure.message : CommandFailure → String
  | .unwalkable failure => failure.message
  | .schemaNotLoaded failure => "Failed to load schema: " ++ failure.fullMessage
  | .schemaNotBuilt failure => "Failed to build schema: " ++ failure.fullMessage

/-- What comes of running the command. -/
inductive CommandOutcome where
  /-- The arguments make no sense. -/
  | refused
  | finished (success : Bool) (output errors : List String) (warnings : List Warning)

namespace CommandOutcome

/-- The exit code of the command. -/
def exitCode : CommandOutcome → UInt32
  | refused => 2
  | finished success _ _ _ => if success then 0 else 1

/-- The outcome with more warnings before its own. -/
def warnFirst (earlier : List Warning) : CommandOutcome → CommandOutcome
  | refused => refused
  | finished success output errors warnings => finished success output errors (earlier ++ warnings)

/-- The command only prints lines. -/
def printed (lines : List String) : CommandOutcome :=
  .finished true lines [] []

/-- The command ends early. -/
def failed (failure : CommandFailure) : CommandOutcome :=
  .finished false [] ["❌ " ++ failure.message] []

/-- The command ends with a report. -/
def reported (report : Report) (skipped : Nat) : CommandOutcome :=
  .finished report.passed (report.lines skipped) [] []

end CommandOutcome

/-! ### Validating -/

/-- The schema of files. -/
def schemaOfFiles (files : List SourceFile) : Except CommandFailure Schema := do
  let draft ← (Draft.empty.loadFiles files).mapError .schemaNotLoaded
  draft.build.mapError .schemaNotBuilt

section

variable {m : Type → Type} [Monad m]

/-- Check the documents that a command names against its schema. -/
def ValidateCommand.run (disk : Disk m) (command : ValidateCommand) : m CommandOutcome := do
  match ← disk.collect command.extensions command.schemas with
  | .error failure => return .failed (.unwalkable failure)
  | .ok sources =>
    match schemaOfFiles (← sources.files.mapM disk.source) with
    | .error failure => return .warnFirst sources.warnings (.failed failure)
    | .ok schema =>
      match ← disk.collect command.extensions command.paths with
      | .error failure => return .warnFirst sources.warnings (.failed (.unwalkable failure))
      | .ok found =>
        let report := Report.ofFiles command.poolCapacity schema (← found.files.mapM disk.source)
        return .warnFirst (sources.warnings ++ found.warnings) (.reported report found.skipped)

end

/-! ### Requests -/

/-- The lines of help on a subject. -/
def HelpTopic.lines : HelpTopic → List String
  | program => [
    "Usage: graphql [OPTIONS] [COMMAND]",
    "",
    "Commands:",
    "  validate  ",
    "  help      Print this message or the help of the given subcommand(s)",
    "",
    "Options:",
    "  -v, --verbose  Enable verbose output.",
    "  -h, --help     Print help",
    "  -V, --version  Print version"]
  | validate => [
    "Usage: graphql validate [OPTIONS] --schema <SCHEMA> <FILE_OR_DIR_PATHS>...",
    "",
    "Arguments:",
    "  <FILE_OR_DIR_PATHS>...  Paths to one or more GraphQL files or directories " ++
      "containing GraphQL documents which need to be validated.",
    "",
    "Options:",
    "      --graphql-file-exts <GRAPHQL_FILE_EXTS>",
    "          Set of file extensions to filter to when searching for files within a " ++
      "directory. [default: graphql graphqls]",
    "      --pool-capacity <POOL_CAPACITY>",
    "          Maximum number of idle validation contexts kept for reuse. [default: 8]",
    "      --schema <SCHEMA>",
    "          Paths to one or more schema (SDL) files or directories containing schema files.",
    "  -h, --help",
    "          Print help"]
  | help => [
    "Print this message or the help of the given subcommand(s)",
    "",
    "Usage: graphql help [COMMAND]...",
    "",
    "Arguments:",
    "  [COMMAND]...  Print help for the subcommand(s)"]

/-- The version of the command. -/
def versionLine : String := "graphql 0.1.1"

/-- The log levels that can be asked for. -/
def logLevels : List String :=
  ["DEBUG", "debug", "INFO", "info", "TRACE", "trace", "VERBOSE", "verbose"]

/-- The warnings about a log level.  White space around it does not count, and
it is not looked at if the output is verbose anyway. -/
def logLevelWarnings (verbose : Bool) (logLevel : Option String) : List Warning :=
  match verbose, logLevel with
  | false, some level =>
    let value := String.ofList (Text.trim level.toList)
    if logLevels.contains value then [] else [.unknownLogLevel value]
  | _, _ => []

section

variable {m : Type → Type} [Monad m]

/-- Do what is asked for, under a log level. -/
def Request.run (disk : Disk m) (logLevel : Option String) : Request → m CommandOutcome
  | .help topic => return .printed topic.lines
  | .version => return .printed [versionLine]
  | .nothing verbose =>
    return .warnFirst (logLevelWarnings verbose logLevel) (.printed HelpTopic.program.lines)
  | .validate verbose command =>
    return .warnFirst (logLevelWarnings verbose logLevel) (← command.run disk)

/-- Run the command on its arguments, under a log level. -/
def runArguments (disk : Disk m) (logLevel : Option String) (arguments : List String) :
    m CommandOutcome :=
  match Request.ofArguments? arguments with
  | none => return .refused
  | some request => request.run disk logLevel

end

end GraphQLStatics
