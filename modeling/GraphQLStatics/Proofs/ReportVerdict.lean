import GraphQLStatics.CommandLine.Run
import GraphQLStatics.Proofs.PoolIsolation

/-!
# The verdict of the command

The command checks many documents with one validator and puts what came of them
into a report.  This file shows that every document counts for itself: what the
report says about it is what a check of that document alone gives, whatever the
other documents are, however large the pool is, and in whatever order the checks
are done.

To speak about the order, a check is cut into the steps between which others can
come: loading the file, taking a workspace from the shared pool, one rule after
the other, and giving the workspace back.  A schedule says whose turn it is.

## Main Definitions

* `SourceFile.verdict`, `SourceFile.Fails`: a file checked alone
* `SourceFile.errors`, `SourceFile.reasons`: what there is to be said about it
* `verdictLines`: what there is to be said about many files
* `Task`, `Task.advance`: a check, cut into steps
* `Batch`, `Batch.run`: checks that share a pool, along a schedule

## Main Statements

* `Report.outcomes_ofFiles`: one after the other, every file has its own verdict
* `Batch.Settles.run`, `Batch.Settles.results_eq`: so it does along any schedule
* `run_validate_verdict`: what the command prints, and its exit code
-/

namespace GraphQLStatics

/-! ### A file by itself -/

/-- What comes of a file that is checked alone, by the standard rules. -/
def SourceFile.verdict (schema : Schema) (file : SourceFile) : DocumentOutcome :=
  (DocumentOutcome.ofFile .standard schema file).1

/-- The file cannot be loaded, or a check by the standard rules finds
something. -/
def SourceFile.Fails (schema : Schema) (file : SourceFile) : Prop :=
  match Document.empty.loadFile file with
  | .error _ => True
  | .ok doc => (Validator.standard.validate schema doc).1 ≠ []

instance (schema : Schema) (file : SourceFile) : Decidable (file.Fails schema) := by
  unfold SourceFile.Fails
  split
  · exact .isTrue trivial
  · infer_instance

/-- What a check by the standard rules finds in the file, if it can be loaded. -/
def SourceFile.errors (schema : Schema) (file : SourceFile) : List Violation :=
  match Document.empty.loadFile file with
  | .error _ => []
  | .ok doc => (Validator.standard.validate schema doc).1

/-- Why the file fails, line by line: that it cannot be loaded, or every error in
it, with the line and the column of its first place, its message and the name of
the rule that found it. -/
def SourceFile.reasons (schema : Schema) (file : SourceFile) : List String :=
  match Document.empty.loadFile file with
  | .error failure => ["    " ++ failure.message]
  | .ok doc => (Validator.standard.validate schema doc).1.map fun error =>
    let place := match error.places with
      | [] => ""
      | first :: _ => toString first.position.line ++ ":" ++ toString first.position.column
    "    " ++ place ++ " " ++ error.message ++ " [" ++ error.rule.name ++ "]"

/-- What there is to be said about files: which of them fail and why, in their
order, and how many errors there are in all of them; or that none fails. -/
def verdictLines (schema : Schema) (files : List SourceFile) (skipped : Nat) : List String :=
  if ∃ file ∈ files, file.Fails schema then
    (files.filter (·.Fails schema)).flatMap
        (fun file => ("❌ " ++ file.path) :: file.reasons schema) ++
      ["❌ Found " ++ toString (files.flatMap (·.errors schema)).length ++
        " validation errors in " ++ toString (files.filter (·.Fails schema)).length ++ " of " ++
        toString files.length ++ " documents."]
  else
    ["✅ All GraphQL validated successfully:",
      "  * Validated " ++ toString files.length ++ " documents.",
      "  * Skipped " ++ toString skipped ++ " non-file entries."]

theorem SourceFile.fails_iff (schema : Schema) (file : SourceFile) :
    file.Fails schema ↔ (file.verdict schema).passed = false := by
  unfold Fails verdict DocumentOutcome.ofFile
  cases Document.empty.loadFile file with
  | error failure => simp [DocumentOutcome.passed]
  | ok doc => simp [DocumentOutcome.passed]

theorem SourceFile.errors_eq (schema : Schema) (file : SourceFile) :
    file.errors schema = (file.verdict schema).violations := by
  unfold errors verdict DocumentOutcome.ofFile
  cases Document.empty.loadFile file with
  | error failure => rfl
  | ok doc => rfl

theorem SourceFile.reasons_eq (schema : Schema) (file : SourceFile) :
    file.reasons schema = (file.verdict schema).details := by
  unfold reasons verdict DocumentOutcome.ofFile
  cases Document.empty.loadFile file with
  | error failure => rfl
  | ok doc =>
      refine List.map_congr_left fun error _ => ?_
      unfold DocumentOutcome.violationLine
      cases error.places with
      | nil => rfl
      | cons first rest => rfl

/-- What the standard rules find in a loaded document. -/
theorem SourceFile.verdict_of_loaded {schema : Schema} {file : SourceFile} {doc : Document}
    (loaded : Document.empty.loadFile file = .ok doc) :
    file.verdict schema =
      .checked (Rule.standard.flatMap fun rule => rule.found schema doc) := by
  have found := Validator.validate_ofConfig .standard schema doc
  simp only [verdict, DocumentOutcome.ofFile, loaded]
  exact congrArg DocumentOutcome.checked found

theorem SourceFile.verdict_of_unloaded {schema : Schema} {file : SourceFile}
    {failure : DocumentFailure} (unloaded : Document.empty.loadFile file = .error failure) :
    file.verdict schema = .unloaded failure := by
  simp only [verdict, DocumentOutcome.ofFile, unloaded]

/-! ### One file after the other -/

/-- A validator with a clean pool gives a file its own verdict, and keeps its
pool clean. -/
theorem DocumentOutcome.ofFile_of_clean {v : Validator} (rules : v.rules = Rule.standard)
    (clean : v.pool.Clean) (schema : Schema) (file : SourceFile) :
    (ofFile v schema file).1 = file.verdict schema ∧
      (ofFile v schema file).2.rules = Rule.standard ∧ (ofFile v schema file).2.pool.Clean := by
  cases loaded : Document.empty.loadFile file with
  | error failure =>
      rw [SourceFile.verdict_of_unloaded loaded]
      simpa only [ofFile, loaded, true_and] using And.intro rules clean
  | ok doc =>
      obtain ⟨found, left⟩ := Validator.validate_of_clean clean schema doc
      rw [SourceFile.verdict_of_loaded loaded, ← rules]
      simp only [ofFile, loaded]
      exact ⟨congrArg checked found, rfl, left⟩

theorem Report.outcomesOf_of_clean {v : Validator} (rules : v.rules = Rule.standard)
    (clean : v.pool.Clean) (schema : Schema) (files : List SourceFile) :
    outcomesOf schema v files = files.map fun file => (file.path, file.verdict schema) := by
  induction files generalizing v with
  | nil => rfl
  | cons file rest ih =>
      obtain ⟨verdict, rules', clean'⟩ := DocumentOutcome.ofFile_of_clean rules clean schema file
      rw [outcomesOf, List.map_cons, ← verdict, ← ih rules' clean']

theorem Report.outcomes_ofFiles (poolCapacity : Nat) (schema : Schema) (files : List SourceFile) :
    (ofFiles poolCapacity schema files).outcomes =
      files.map fun file => (file.path, file.verdict schema) :=
  outcomesOf_of_clean rfl (Pool.clean_filled poolCapacity) schema files

/-! ### Checks in turns -/

/-- How far the check of a file has come. -/
inductive Task where
  | queued (file : SourceFile)
  | loaded (path : String) (doc : Document)
  /-- The document is being checked in a workspace, and some rules are left. -/
  | checking (path : String) (doc : Document) (rules : List Rule) (w : Workspace)
  | finished (path : String) (outcome : DocumentOutcome)

namespace Task

/-- The next step of a check by the standard rules, with the pool that is shared
by all checks. -/
def advance (schema : Schema) (pool : Pool) : Task → Task × Pool
  | queued file =>
    match Document.empty.loadFile file with
    | .error failure => (finished file.path (.unloaded failure), pool)
    | .ok doc => (loaded file.path doc, pool)
  | loaded path doc =>
    let (w, pool) := pool.acquire
    (checking path doc Rule.standard (w.bindTo doc), pool)
  | checking path doc (rule :: rules) w =>
    (checking path doc rules (rule.run schema doc w.clearScratch), pool)
  | checking path _ [] w =>
    (finished path (.checked w.violations), pool.release { w with violations := [] })
  | finished path outcome => (finished path outcome, pool)

/-- What came of a check that is finished. -/
def result? : Task → Option (String × DocumentOutcome)
  | finished path outcome => some (path, outcome)
  | _ => none

/-- The number of steps that a check has before it, at most. -/
def stepsLeft : Task → Nat
  | queued _ => Rule.standard.length + 3
  | loaded _ _ => Rule.standard.length + 2
  | checking _ _ rules _ => rules.length + 1
  | finished _ _ => 0

/-- The task is a check of the file, and has found what there is to be found so
far. -/
inductive Checks (schema : Schema) (file : SourceFile) : Task → Prop
  | queued : Checks schema file (queued file)
  | loaded {doc : Document} (load : Document.empty.loadFile file = .ok doc) :
      Checks schema file (loaded file.path doc)
  | checking {doc : Document} (load : Document.empty.loadFile file = .ok doc)
      (before : List Rule) {rules : List Rule} (split : before ++ rules = Rule.standard)
      {w : Workspace} (bound : w.BoundTo doc)
      (found : w.violations = before.flatMap fun rule => rule.found schema doc) :
      Checks schema file (checking file.path doc rules w)
  | finished : Checks schema file (finished file.path (file.verdict schema))

/-- A step keeps the pool clean. -/
theorem clean_advance {pool : Pool} (clean : pool.Clean) (schema : Schema) (task : Task) :
    (task.advance schema pool).2.Clean := by
  cases task with
  | queued file =>
      cases load : Document.empty.loadFile file with
      | error failure => simpa only [advance, load] using clean
      | ok doc => simpa only [advance, load] using clean
  | loaded path doc => exact clean.acquire.2
  | checking path doc rules w =>
      cases rules with
      | nil => exact clean.release _
      | cons rule rest => exact clean
  | finished path outcome => exact clean

/-- A step goes on with the check. -/
theorem Checks.advance {schema : Schema} {file : SourceFile} {task : Task}
    (checks : Checks schema file task) {pool : Pool} (clean : pool.Clean) :
    Checks schema file (task.advance schema pool).1 := by
  cases checks with
  | queued =>
      cases load : Document.empty.loadFile file with
      | error failure =>
          simp only [Task.advance, load]
          rw [← SourceFile.verdict_of_unloaded load]
          exact .finished
      | ok doc =>
          simp only [Task.advance, load]
          exact .loaded load
  | @loaded doc load =>
      -- what another check had left in the workspace would count for this one
      have taken : pool.acquire.1.violations = [] :=
        Workspace.violations_eq_nil_of_isClean clean.acquire.1
      exact .checking load [] (List.nil_append _) (Workspace.boundTo_bindTo _ doc) taken
  | @checking doc load before rules split w bound found =>
      cases rules with
      | nil =>
          rw [List.append_nil] at split
          have verdict : file.verdict schema = .checked w.violations := by
            rw [SourceFile.verdict_of_loaded load, found, split]
          simp only [Task.advance]
          rw [← verdict]
          exact .finished
      | cons rule rest =>
          have added := rule.run_adds schema bound
          refine .checking load (before ++ [rule]) ?_ ?_ ?_
          · rw [List.append_assoc, List.singleton_append, split]
          · exact added.fragmentIndex.trans bound
          · rw [added.violations, found, List.flatMap_append, List.flatMap_singleton]
  | finished => exact .finished

theorem Checks.eq_finished {schema : Schema} {file : SourceFile} {task : Task}
    (checks : Checks schema file task) (done : task.stepsLeft = 0) :
    task = .finished file.path (file.verdict schema) := by
  cases checks with
  | queued => simp [stepsLeft] at done
  | loaded load => simp [stepsLeft] at done
  | checking load before split bound found => simp [stepsLeft] at done
  | finished => rfl

/-- A step brings a check closer to its end. -/
theorem stepsLeft_advance_le (schema : Schema) (pool : Pool) (task : Task) :
    (task.advance schema pool).1.stepsLeft ≤ task.stepsLeft - 1 := by
  cases task with
  | queued file =>
      cases load : Document.empty.loadFile file with
      | error failure => simp [advance, load, stepsLeft]
      | ok doc => simp [advance, load, stepsLeft]
  | loaded path doc => simp [advance, stepsLeft]
  | checking path doc rules w =>
      cases rules with
      | nil => simp [advance, stepsLeft]
      | cons rule rest => simp [advance, stepsLeft]
  | finished path outcome => simp [advance, stepsLeft]

end Task

/-- Checks that share a pool. -/
structure Batch where
  pool : Pool
  tasks : List Task

namespace Batch

/-- The checks of files before the first step. -/
def start (poolCapacity : Nat) (files : List SourceFile) : Batch where
  pool := .filled poolCapacity
  tasks := files.map .queued

/-- Let one of the checks do its next step. -/
def step (schema : Schema) (b : Batch) (turn : Nat) : Batch :=
  match b.tasks[turn]? with
  | none => b
  | some task =>
    let (task, pool) := task.advance schema b.pool
    { pool, tasks := b.tasks.set turn task }

/-- Let the checks do steps in the order of a schedule. -/
def run (schema : Schema) (b : Batch) (schedule : List Nat) : Batch :=
  schedule.foldl (step schema) b

/-- All checks have come to their end. -/
def Finished (b : Batch) : Prop :=
  ∀ task ∈ b.tasks, task.stepsLeft = 0

/-- What came of the checks that are finished, in the order of the files. -/
def results (b : Batch) : List (String × DocumentOutcome) :=
  b.tasks.filterMap Task.result?

/-- The tasks are checks of the files, in their order. -/
structure Settles (schema : Schema) (files : List SourceFile) (b : Batch) : Prop where
  clean : b.pool.Clean
  checks : List.Forall₂ (Task.Checks schema) files b.tasks

theorem settles_start (poolCapacity : Nat) (schema : Schema) (files : List SourceFile) :
    (start poolCapacity files).Settles schema files where
  clean := Pool.clean_filled poolCapacity
  checks := by
    induction files with
    | nil => exact .nil
    | cons file rest ih => exact .cons .queued ih

/-- One task is replaced by another that checks whatever the first one checks. -/
theorem forall₂_set {schema : Schema} {files : List SourceFile} {tasks : List Task}
    (checks : List.Forall₂ (Task.Checks schema) files tasks) {turn : Nat} {task next : Task}
    (found : tasks[turn]? = some task)
    (goesOn : ∀ file, Task.Checks schema file task → Task.Checks schema file next) :
    List.Forall₂ (Task.Checks schema) files (tasks.set turn next) := by
  induction checks generalizing turn with
  | nil => exact .nil
  | cons first rest ih =>
      cases turn with
      | zero =>
          cases found
          exact .cons (goesOn _ first) rest
      | succ turn => exact .cons first (ih found)

theorem Settles.step {schema : Schema} {files : List SourceFile} {b : Batch}
    (settles : b.Settles schema files) (turn : Nat) :
    (b.step schema turn).Settles schema files := by
  unfold Batch.step
  cases found : b.tasks[turn]? with
  | none => exact settles
  | some task =>
      exact ⟨Task.clean_advance settles.clean schema task,
        forall₂_set settles.checks found fun file checks => checks.advance settles.clean⟩

theorem Settles.run {schema : Schema} {files : List SourceFile} {b : Batch}
    (settles : b.Settles schema files) (schedule : List Nat) :
    (b.run schema schedule).Settles schema files := by
  induction schedule generalizing b with
  | nil => exact settles
  | cons turn rest ih => exact ih (settles.step turn)

/-- Once all checks are finished, every file has its own verdict. -/
theorem Settles.results_eq {schema : Schema} {files : List SourceFile} {b : Batch}
    (settles : b.Settles schema files) (finished : b.Finished) :
    b.results = files.map fun file => (file.path, file.verdict schema) := by
  obtain ⟨-, checks⟩ := settles
  unfold Finished at finished
  unfold results
  generalize b.tasks = tasks at checks finished
  induction checks with
  | nil => rfl
  | cons first _ ih =>
      rw [List.forall_mem_cons] at finished
      rw [first.eq_finished finished.1, List.map_cons, ← ih finished.2]
      exact List.filterMap_cons_some rfl

/-! ### Every check comes to its end -/

/-- A turn brings the check whose turn it is closer to its end, and none
further away from it. -/
theorem stepsLeft_step {schema : Schema} {b : Batch} {turn i : Nat} {task : Task}
    (found : (b.step schema turn).tasks[i]? = some task) :
    ∃ earlier, b.tasks[i]? = some earlier ∧
      task.stepsLeft ≤ earlier.stepsLeft - [turn].count i := by
  unfold step at found
  cases current : b.tasks[turn]? with
  | none =>
      simp only [current] at found
      have other : turn ≠ i := by
        rintro rfl
        simp [current] at found
      exact ⟨task, found, by simp [other]⟩
  | some earlier =>
      simp only [current, List.getElem?_set] at found
      by_cases same : turn = i
      · subst same
        have bound := (List.getElem?_eq_some_iff.mp current).1
        simp only [bound, if_true, Option.some.injEq] at found
        subst found
        refine ⟨earlier, current, ?_⟩
        have less := Task.stepsLeft_advance_le schema b.pool earlier
        simpa using less
      · simp only [same, if_false] at found
        exact ⟨task, found, by simp [same]⟩

theorem stepsLeft_run {schema : Schema} {b : Batch} (schedule : List Nat) {i : Nat} {task : Task}
    (found : (b.run schema schedule).tasks[i]? = some task) :
    ∃ earlier, b.tasks[i]? = some earlier ∧
      task.stepsLeft ≤ earlier.stepsLeft - schedule.count i := by
  induction schedule generalizing b with
  | nil => exact ⟨task, found, Nat.le_refl _⟩
  | cons turn rest ih =>
      obtain ⟨middle, foundMiddle, leftMiddle⟩ := ih found
      obtain ⟨earlier, foundEarlier, leftEarlier⟩ := stepsLeft_step foundMiddle
      refine ⟨earlier, foundEarlier, ?_⟩
      have counted : (turn :: rest).count i = [turn].count i + rest.count i := by
        rw [← List.count_append, List.singleton_append]
      omega

/-- A schedule that gives every check ten turns finishes them all. -/
theorem finished_run_start (poolCapacity : Nat) (schema : Schema) (files : List SourceFile)
    {schedule : List Nat} (fair : ∀ i < files.length, 10 ≤ schedule.count i) :
    ((start poolCapacity files).run schema schedule).Finished := by
  intro task mem
  obtain ⟨i, found⟩ := List.mem_iff_getElem?.mp mem
  obtain ⟨earlier, foundEarlier, left⟩ := stepsLeft_run schedule found
  obtain ⟨bound, rfl⟩ := List.getElem?_eq_some_iff.mp foundEarlier
  have turns := fair i (by simpa [start] using bound)
  have steps : ((start poolCapacity files).tasks[i]).stepsLeft = 10 := by
    simp [start, Task.stepsLeft, Rule.standard]
  omega

end Batch

/-! ### What the command prints -/

namespace Report

theorem passed_eq (schema : Schema) (files : List SourceFile) :
    (Report.mk (files.map fun file => (file.path, file.verdict schema))).passed =
      decide (∀ file ∈ files, ¬file.Fails schema) := by
  rw [Bool.eq_iff_iff]
  simp [passed, SourceFile.fails_iff]

theorem failures_eq (schema : Schema) (files : List SourceFile) :
    (Report.mk (files.map fun file => (file.path, file.verdict schema))).failures =
      (files.filter (·.Fails schema)).map fun file => (file.path, file.verdict schema) := by
  have fails (file : SourceFile) :
      (!(file.verdict schema).passed) = decide (file.Fails schema) := by
    simp [SourceFile.fails_iff]
  simp only [failures, List.filter_map]
  exact congrArg _ (List.filter_congr fun file _ => fails file)

theorem errorCount_eq (schema : Schema) (files : List SourceFile) :
    (Report.mk (files.map fun file => (file.path, file.verdict schema))).errorCount =
      (files.flatMap (·.errors schema)).length := by
  unfold errorCount
  induction files with
  | nil => rfl
  | cons file rest ih =>
      rw [List.map_cons, List.flatMap_cons, List.length_append, List.foldr_cons, ih,
        file.errors_eq]

theorem lines_eq (schema : Schema) (files : List SourceFile) (skipped : Nat) :
    (Report.mk (files.map fun file => (file.path, file.verdict schema))).lines skipped =
      verdictLines schema files skipped := by
  unfold lines verdictLines
  rw [passed_eq]
  by_cases failed : ∃ file ∈ files, file.Fails schema
  · rw [if_pos failed, if_neg (by simpa using failed), summary, errorCount_eq, failedCount,
      failures_eq]
    simp only [List.flatMap_map, List.length_map, failureLines, SourceFile.reasons_eq]
  · rw [if_neg failed, if_pos (by simpa using failed), successLines, List.length_map]

end Report

namespace CommandOutcome

theorem warnFirst_reported (earlier : List Warning) (report : Report) (skipped : Nat) :
    warnFirst earlier (reported report skipped) =
      finished report.passed (report.lines skipped) [] earlier := by
  rw [reported, warnFirst, List.append_nil]

end CommandOutcome

/-- The files at full paths of a disk whose contents are given. -/
def Disk.sources (disk : Disk Id) (paths : List String) : List SourceFile :=
  paths.map fun path => (disk.source path).run

/-- Once the schema is built and the documents are found, the command ends with
the report on them. -/
theorem ValidateCommand.run_eq_reported {disk : Disk Id} {command : ValidateCommand}
    {sources found : Collection} {schema : Schema}
    (collected : (disk.collect command.extensions command.schemas).run = .ok sources)
    (built : schemaOfFiles (disk.sources sources.files) = .ok schema)
    (documents : (disk.collect command.extensions command.paths).run = .ok found) :
    (command.run disk).run = .warnFirst (sources.warnings ++ found.warnings)
      (.reported (.ofFiles command.poolCapacity schema (disk.sources found.files))
        found.skipped) := by
  have read : ∀ paths : List String, (paths.mapM disk.source).run = disk.sources paths :=
    fun paths => List.idRun_mapM
  simp only [ValidateCommand.run, Id.run_bind, collected, read, built, documents, Id.run_pure]

/-- **The verdict of the command.**  Once the schema is built and the documents
are found, the command fails if and only if some document cannot be loaded or
has a violation.  It then names those documents in the order in which they were
found, each with what comes of it when it is checked alone, and counts the
violations of all documents and the documents that fail.  The report is the same
along every schedule that finishes the checks, and every schedule with enough
turns for each of them does. -/
theorem run_validate_verdict (disk : Disk Id) (command : ValidateCommand)
    {sources found : Collection} {schema : Schema}
    (collected : (disk.collect command.extensions command.schemas).run = .ok sources)
    (built : schemaOfFiles (disk.sources sources.files) = .ok schema)
    (documents : (disk.collect command.extensions command.paths).run = .ok found) :
    let files := disk.sources found.files
    let warnings := sources.warnings ++ found.warnings
    let outcome := (command.run disk).run
    (outcome.exitCode = 1 ↔ ∃ file ∈ files, file.Fails schema) ∧
    outcome = .finished (∀ file ∈ files, ¬file.Fails schema)
      (verdictLines schema files found.skipped) [] warnings ∧
    ∀ schedule : List Nat,
      let batch := (Batch.start command.poolCapacity files).run schema schedule
      ((∀ i < files.length, 10 ≤ schedule.count i) → batch.Finished) ∧
      (batch.Finished →
        outcome = .warnFirst warnings (.reported ⟨batch.results⟩ found.skipped)) := by
  intro files warnings outcome
  have reported : outcome = .warnFirst warnings
      (.reported ⟨files.map fun file => (file.path, file.verdict schema)⟩ found.skipped) := by
    rw [← Report.outcomes_ofFiles command.poolCapacity]
    exact ValidateCommand.run_eq_reported collected built documents
  have finished : outcome = .finished (∀ file ∈ files, ¬file.Fails schema)
      (verdictLines schema files found.skipped) [] warnings := by
    rw [reported, CommandOutcome.warnFirst_reported, Report.passed_eq, Report.lines_eq]
  refine ⟨?_, finished, ?_⟩
  · rw [finished, CommandOutcome.exitCode]
    by_cases failed : ∃ file ∈ files, file.Fails schema
    · simp [failed]
    · simp [failed]
  · intro schedule batch
    refine ⟨Batch.finished_run_start command.poolCapacity schema files, ?_⟩
    intro finished
    have settles := (Batch.settles_start command.poolCapacity schema files).run schedule
    rw [settles.results_eq finished]
    exact reported

/-- A disk with a schema, a document that breaks off, one without fault, and one
with an unknown directive and an unused variable. -/
def threeDocuments : Disk Id where
  walk path := .ok <|
    if path = "schema" then [⟨"s.graphql", "/schema/s.graphql", true⟩]
    else [⟨"a.graphql", "/docs/a.graphql", true⟩, ⟨"b.graphql", "/docs/b.graphql", true⟩,
      ⟨"c.graphql", "/docs/c.graphql", true⟩]
  read path := .ok <|
    if path = "/schema/s.graphql" then "type Query \x7b a: Int \x7d"
    else if path = "/docs/a.graphql" then "\x7b a"
    else if path = "/docs/b.graphql" then "\x7b a \x7d"
    else "query Q($x: Int) \x7b\n  a @d\n\x7d"

/-- The command lists the document that breaks off and the errors of the last one,
with a pool that keeps no workspace and with the checks done in turns. -/
theorem run_validate_verdict_broken :
    let command : ValidateCommand := ⟨["schema"], ["docs"], ["graphql"], 0⟩
    let documents := ["/docs/a.graphql", "/docs/b.graphql", "/docs/c.graphql"]
    let printed := ["❌ /docs/a.graphql",
      "    Error parsing document from /docs/a.graphql: query parse error: Parse error at 1:4",
      "❌ /docs/c.graphql",
      "    2:5 The specified directive `@d` is not supported by the current schema. " ++
        "[DirectivesAreValid]",
      "    1:9 The variable `$x` is not used by operation `Q`. [AllVariablesUsed]",
      "❌ Found 2 validation errors in 2 of 3 documents."]
    ∃ schema, schemaOfFiles (threeDocuments.sources ["/schema/s.graphql"]) = .ok schema ∧
      ((command.run threeDocuments).run).exitCode = 1 ∧
      (command.run threeDocuments).run = .finished false printed [] [] ∧
      ((Batch.start 0 (threeDocuments.sources documents)).run schema
        ((List.replicate 10 [0, 1, 2]).flatten)).Finished := by
  intro command documents printed
  have collected : (threeDocuments.collect command.extensions command.schemas).run =
    .ok ⟨["/schema/s.graphql"], 0, []⟩ := rfl
  have foundAll : (threeDocuments.collect command.extensions command.paths).run =
    .ok ⟨documents, 0, []⟩ := rfl
  have met : (schemaOfFiles (threeDocuments.sources ["/schema/s.graphql"])).toOption.map
      (fun schema => (decide (∃ file ∈ threeDocuments.sources documents, file.Fails schema),
        verdictLines schema (threeDocuments.sources documents) 0)) = some (true, printed) := by
    decide +kernel
  cases built : schemaOfFiles (threeDocuments.sources ["/schema/s.graphql"]) with
  | error failure =>
      rw [built] at met
      cases met
  | ok schema =>
      rw [built] at met
      obtain ⟨fails, lines⟩ := Prod.mk.inj (Option.some.inj met)
      have failed := of_decide_eq_true fails
      obtain ⟨exit, finished, turns⟩ :=
        run_validate_verdict threeDocuments command collected built foundAll
      refine ⟨schema, rfl, exit.mpr failed, ?_, (turns _).1 (by decide)⟩
      have passed : decide (∀ file ∈ threeDocuments.sources documents, ¬file.Fails schema) =
          false := by simpa using failed
      rw [finished, passed, lines]
      rfl

end GraphQLStatics
