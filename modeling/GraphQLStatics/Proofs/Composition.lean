import GraphQLStatics.Proofs.CycleReports
import GraphQLStatics.Proofs.PoolIsolation

/-!
# Rules do not interfere

A check by several rules gives what checks by each of them give, one after the
other.  The rules share a workspace, and a list of rules may hold one rule
twice; neither shows in the result.

## Main Definitions

* `Violation.IsOf`: a violation belongs to a rule and lies in a document

## Main Statements

* `Rule.isOf_of_mem_found`: what a rule finds belongs to it
* `validate_eq_flatMap_alone`: checks compose
* `ValidatorBuilder.validate_addRules`: more rules find more at the end
-/

namespace GraphQLStatics

/-! ### Violations and their places -/

namespace Violation

/-- The violation belongs to the rule, is about something, and lies in the file
of the document. -/
def IsOf (rule : Rule) (doc : Document) (v : Violation) : Prop :=
  v.rule = rule ∧ v.places ≠ [] ∧ ∀ place ∈ v.places, place.file = doc.file

/-- A violation with a single place, which is one of the document. -/
theorem isOf_of_places {v : Violation} {rule : Rule} {doc : Document} {position : Position}
    (ofRule : v.rule = rule) (single : v.places = [doc.place position]) : v.IsOf rule doc := by
  refine ⟨ofRule, by simp [single], ?_⟩
  intro place mem
  rw [single, List.mem_singleton] at mem
  rw [mem]
  rfl

theorem isOf_of_mem_singleton {v only : Violation} {rule : Rule} {doc : Document}
    (mem : v ∈ [only]) (isOf : only.IsOf rule doc) : v.IsOf rule doc :=
  List.mem_singleton.mp mem ▸ isOf

/-- A violation that is reported unless a test passes. -/
theorem isOf_of_mem_unless {test : Prop} [Decidable test] {v only : Violation} {rule : Rule}
    {doc : Document} (mem : v ∈ if test then [] else [only]) (isOf : only.IsOf rule doc) :
    v.IsOf rule doc := by
  split at mem
  · cases mem
  · exact isOf_of_mem_singleton mem isOf

/-- A violation that is reported if a test passes. -/
theorem isOf_of_mem_when {test : Prop} [Decidable test] {v only : Violation} {rule : Rule}
    {doc : Document} (mem : v ∈ if test then [only] else []) (isOf : only.IsOf rule doc) :
    v.IsOf rule doc := by
  split at mem
  · exact isOf_of_mem_singleton mem isOf
  · cases mem

end Violation

/-! ### What each rule finds belongs to it -/

theorem isOf_of_mem_siteFindings {schema : Schema} {doc : Document} {site : DirectiveSite}
    {v : Violation} (mem : v ∈ siteFindings schema doc site) :
    v.IsOf .directivesAreValid doc := by
  obtain ⟨earlier, d, later, -, mem⟩ := mem_withEarlier.mp mem
  unfold directiveFindings at mem
  split at mem
  · exact Violation.isOf_of_mem_singleton mem (Violation.isOf_of_places rfl rfl)
  · rcases List.mem_append.mp mem with mem | mem
    · exact Violation.isOf_of_mem_unless mem (Violation.isOf_of_places rfl rfl)
    · exact Violation.isOf_of_mem_when mem (Violation.isOf_of_places rfl rfl)

theorem isOf_of_mem_visitFieldFindings {schema : Schema} {doc : Document} {visit : Visit}
    {v : Violation} (mem : v ∈ visitFieldFindings schema doc visit) :
    v.IsOf .fieldMustBeDefined doc := by
  unfold visitFieldFindings at mem
  split at mem
  · split at mem
    · unfold fieldOnFindings at mem
      split at mem
      · cases mem
      · split at mem
        · exact Violation.isOf_of_mem_singleton mem (Violation.isOf_of_places rfl rfl)
        · exact Violation.isOf_of_mem_when mem (Violation.isOf_of_places rfl rfl)
    · cases mem
  · cases mem

theorem isOf_of_mem_fragmentFindings {schema : Schema} {doc : Document} {v : Violation}
    (mem : v ∈ fragmentFindings schema doc) : v.IsOf .fragmentsAreValid doc := by
  simp only [fragmentFindings, List.mem_append, List.mem_flatMap] at mem
  rcases mem with ((((names | ⟨frag, -, condition⟩) | ⟨visit, -, selection⟩) |
    ⟨frag, -, unused⟩) | cycle)
  · obtain ⟨earlier, frag, later, -, mem⟩ := mem_withEarlier.mp names
    exact Violation.isOf_of_mem_when mem (Violation.isOf_of_places rfl rfl)
  · exact of_mem_conditionFindings condition (Violation.isOf_of_places rfl rfl)
      (Violation.isOf_of_places rfl rfl)
  · exact of_mem_visitFragmentFindings selection
      (fun _ _ => Violation.isOf_of_places rfl rfl)
      (fun _ _ => Violation.isOf_of_places rfl rfl)
      (fun _ _ => Violation.isOf_of_places rfl rfl)
      (fun _ _ _ _ => Violation.isOf_of_places rfl rfl)
  · exact Violation.isOf_of_mem_unless unused (Violation.isOf_of_places rfl rfl)
  · obtain ⟨site, closes⟩ := exists_closes_of_mem_checkCycles cycle
    cases closes
    exact Violation.isOf_of_places rfl rfl

theorem isOf_of_mem_useFindings {schema : Schema} {doc : Document} {op : Operation}
    {v : Violation} (mem : v ∈ useFindings schema doc op) : v.IsOf .allVariablesUsed doc := by
  simp only [useFindings, List.mem_append, List.mem_flatMap] at mem
  rcases mem with ⟨use, -, mem⟩ | unused
  · refine Violation.isOf_of_mem_unless mem ⟨rfl, by simp [Violation.places], ?_⟩
    intro place mem
    simp only [Violation.places, List.mem_cons, List.not_mem_nil, or_false] at mem
    rcases mem with rfl | rfl
    · rfl
    · rfl
  · obtain ⟨earlier, d, later, -, mem⟩ := mem_withEarlier.mp unused
    exact Violation.isOf_of_mem_unless mem (Violation.isOf_of_places rfl rfl)

theorem isOf_of_mem_usageFindings {schema : Schema} {doc : Document} {op : Operation}
    {v : Violation} (mem : v ∈ usageFindings schema doc op) :
    v.IsOf .allVariableUsagesAreAllowed doc := by
  obtain ⟨argument, -, mem⟩ := List.mem_flatMap.mp mem
  obtain ⟨occurrence, -, isViolation⟩ := List.mem_filterMap.mp mem
  unfold usageViolation? at isViolation
  split at isViolation
  · dsimp only at isViolation
    split at isViolation
    · cases isViolation
    · cases isViolation
      exact Violation.isOf_of_places rfl rfl
  · cases isViolation

theorem isOf_of_mem_variableFindings {schema : Schema} {doc : Document} {op : Operation}
    {earlier : List VariableDefinition} {d : VariableDefinition} {v : Violation}
    (mem : v ∈ variableFindings schema doc op earlier d) :
    v.IsOf .variableUniqueAndInputType doc := by
  rcases List.mem_append.mp mem with mem | mem
  · exact Violation.isOf_of_mem_when mem (Violation.isOf_of_places rfl rfl)
  · exact Violation.isOf_of_mem_unless mem (Violation.isOf_of_places rfl rfl)

/-- What a rule finds belongs to the rule and lies in the document. -/
theorem Rule.isOf_of_mem_found {rule : Rule} {schema : Schema} {doc : Document}
    {v : Violation} (mem : v ∈ rule.found schema doc) : v.IsOf rule doc := by
  cases rule with
  | fragmentsAreValid => exact isOf_of_mem_fragmentFindings mem
  | directivesAreValid =>
      obtain ⟨site, -, mem⟩ := List.mem_flatMap.mp mem
      exact isOf_of_mem_siteFindings mem
  | executableDefinitions =>
      obtain ⟨definition, -, mem⟩ := List.mem_flatMap.mp mem
      exact Violation.isOf_of_mem_unless mem (Violation.isOf_of_places rfl rfl)
  | fieldMustBeDefined =>
      obtain ⟨visit, -, mem⟩ := List.mem_flatMap.mp mem
      exact isOf_of_mem_visitFieldFindings mem
  | allVariablesUsed =>
      obtain ⟨op, -, mem⟩ := List.mem_flatMap.mp mem
      exact isOf_of_mem_useFindings mem
  | allVariableUsagesAreAllowed =>
      obtain ⟨op, -, mem⟩ := List.mem_flatMap.mp mem
      exact isOf_of_mem_usageFindings mem
  | variableUniqueAndInputType =>
      obtain ⟨op, -, mem⟩ := List.mem_flatMap.mp mem
      obtain ⟨earlier, d, later, -, mem⟩ := mem_withEarlier.mp mem
      exact isOf_of_mem_variableFindings mem

/-! ### Checks compose -/

/-- **Rules compose without interference.**  What a validator reports is the
concatenation, in the order of its rules, of what validators with one of the
rules each report; and each of these reports belongs to its rule, is about at
least one place, and has no place outside the document's file. -/
theorem validate_eq_flatMap_alone (schema : Schema) (doc : Document) (rules : List Rule)
    (capacity alone : Nat) :
    ((Validator.ofConfig ⟨capacity, rules⟩).validate schema doc).1 =
        rules.flatMap (fun rule =>
          ((Validator.ofConfig ⟨alone, [rule]⟩).validate schema doc).1) ∧
      ∀ rule, ∀ v ∈ ((Validator.ofConfig ⟨alone, [rule]⟩).validate schema doc).1,
        v.rule = rule ∧ v.places ≠ [] ∧ ∀ place ∈ v.places, place.file = doc.file := by
  refine ⟨?_, ?_⟩
  · simp only [Validator.validate_single]
    exact Validator.validate_ofConfig ⟨capacity, rules⟩ schema doc
  · intro rule v mem
    rw [Validator.validate_single] at mem
    exact Rule.isOf_of_mem_found mem

/-- A rule that stands twice in the list reports a block of root types twice. -/
theorem validate_eq_flatMap_alone_repeated :
    let schema : Schema := ⟨.empty, .empty, "Query", none, none⟩
    let doc : Document := ⟨[.typeSystem (.roots ⟨⟨3, 1⟩, none, none, none⟩)], some "a.graphql"⟩
    let v : Violation := .notExecutable ⟨some "a.graphql", ⟨3, 1⟩⟩
    ((Validator.ofConfig ⟨2, [.executableDefinitions, .allVariablesUsed,
        .executableDefinitions]⟩).validate schema doc).1 = [v, v] ∧
      v ∈ ((Validator.ofConfig ⟨0, [.executableDefinitions]⟩).validate schema doc).1 ∧
      v.rule = .executableDefinitions ∧ v.places ≠ [] ∧
        ∀ place ∈ v.places, place.file = doc.file := by
  intro schema doc v
  obtain ⟨composed, belongs⟩ := validate_eq_flatMap_alone schema doc
    [.executableDefinitions, .allVariablesUsed, .executableDefinitions] 2 0
  have reported : v ∈
      ((Validator.ofConfig ⟨0, [.executableDefinitions]⟩).validate schema doc).1 := by
    decide
  exact ⟨composed.trans rfl, reported, belongs .executableDefinitions v reported⟩

/-- Rules that are added to a builder find what they find alone, after all that is
found without them and whatever the number of workspaces. -/
theorem ValidatorBuilder.validate_addRules (b : ValidatorBuilder) (capacity : Nat)
    (rules : List Rule) (schema : Schema) (doc : Document) :
    (((b.withPoolCapacity capacity).addRules rules).build.validate schema doc).1 =
      (b.build.validate schema doc).1 ++
        ((new.addRules rules).build.validate schema doc).1 := by
  simp only [build, Validator.validate_ofConfig]
  exact List.flatMap_append

-- A rule may come before the standard ones and once more among them.
example : (ValidatorBuilder.new.addRule .allVariablesUsed).addStandardRules.build.rules =
    .allVariablesUsed :: Validator.standard.rules :=
  rfl

end GraphQLStatics
