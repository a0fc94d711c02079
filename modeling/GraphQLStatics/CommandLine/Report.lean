import GraphQLStatics.Document.Load
import GraphQLStatics.Validation.Validator

/-!
# Reports

What came of checking documents one after the other, and its text.

## Main Definitions

* `DocumentOutcome`, `Report`
* `Report.ofFiles`: check files against a schema
* `Report.passed`, `Report.errorCount`, `Report.failedCount`
* `Report.lines`
-/

namespace GraphQLStatics

/-- What came of a document. -/
inductive DocumentOutcome where
  | unloaded (failure : DocumentFailure)
  | checked (violations : List Violation)

namespace DocumentOutcome

/-- Whether a document was loaded and has no violation. -/
def passed : DocumentOutcome → Bool
  | unloaded _ => false
  | checked violations => violations.isEmpty

/-- The violations of a document. -/
def violations : DocumentOutcome → List Violation
  | unloaded _ => []
  | checked violations => violations

/-- Load a file as a document and check it. -/
def ofFile (v : Validator) (schema : Schema) (file : SourceFile) : DocumentOutcome × Validator :=
  match Document.empty.loadFile file with
  | .error failure => (.unloaded failure, v)
  | .ok doc =>
    let (violations, v) := v.validate schema doc
    (.checked violations, v)

/-- The line that describes a violation. -/
def violationLine (violation : Violation) : String :=
  let position := match violation.places with
    | place :: _ => place.position.render
    | [] => ""
  "    " ++ position ++ " " ++ violation.message ++ " [" ++ violation.rule.name ++ "]"

/-- The lines that say why a document did not pass. -/
def details : DocumentOutcome → List String
  | unloaded failure => ["    " ++ failure.message]
  | checked violations => violations.map violationLine

end DocumentOutcome

/-- What came of each document, by its path and in order. -/
structure Report where
  outcomes : List (String × DocumentOutcome)

namespace Report

/-- Check files in order, each with the validator that the one before it
leaves. -/
def outcomesOf (schema : Schema) : Validator → List SourceFile → List (String × DocumentOutcome)
  | _, [] => []
  | v, file :: files =>
    let (outcome, v) := DocumentOutcome.ofFile v schema file
    (file.path, outcome) :: outcomesOf schema v files

/-- Check files against a schema by the standard rules, with a pool of the
given capacity. -/
def ofFiles (poolCapacity : Nat) (schema : Schema) (files : List SourceFile) : Report where
  outcomes := outcomesOf schema (.ofConfig { ValidatorConfig.standard with poolCapacity }) files

/-- Whether every document passed. -/
def passed (report : Report) : Bool :=
  report.outcomes.all (·.2.passed)

/-- The documents that did not pass. -/
def failures (report : Report) : List (String × DocumentOutcome) :=
  report.outcomes.filter (! ·.2.passed)

/-- The number of violations in all documents. -/
def errorCount (report : Report) : Nat :=
  report.outcomes.foldr (fun (_, outcome) n => outcome.violations.length + n) 0

/-- The number of documents that did not pass. -/
def failedCount (report : Report) : Nat :=
  report.failures.length

/-- The line with the counts of a report that has failures. -/
def summary (report : Report) : String :=
  "❌ Found " ++ toString report.errorCount ++ " validation errors in " ++
    toString report.failedCount ++ " of " ++ toString report.outcomes.length ++ " documents."

/-- The lines of a report that has no failures. -/
def successLines (report : Report) (skipped : Nat) : List String :=
  ["✅ All GraphQL validated successfully:",
   "  * Validated " ++ toString report.outcomes.length ++ " documents.",
   "  * Skipped " ++ toString skipped ++ " non-file entries."]

/-- The lines about a document that did not pass. -/
def failureLines (path : String) (outcome : DocumentOutcome) : List String :=
  ("❌ " ++ path) :: outcome.details

/-- The text of a report, when so many entries were skipped in looking for the
documents. -/
def lines (report : Report) (skipped : Nat) : List String :=
  if report.passed then report.successLines skipped
  else report.failures.flatMap (fun (path, outcome) => failureLines path outcome) ++
    [report.summary]

end Report

end GraphQLStatics
