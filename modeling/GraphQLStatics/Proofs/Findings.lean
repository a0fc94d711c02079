import GraphQLStatics.Proofs.CycleWalk
import GraphQLStatics.Validation.Validator

/-!
# What the rules find

For every rule this file gives the violations that it finds in a document, as
a function of the schema and the document alone, and shows that running the
rule in any workspace that is bound to the document, with cleared scratch, adds
exactly these.  Nothing that an earlier rule or an earlier document has left in
the workspace enters into it.

## Main Definitions

* `siteFindings`, `visitFieldFindings`, `visitFragmentFindings`,
  `useFindings`, `usageFindings`, `variableFindings`: the findings at one place
* `scopeArguments`: the arguments in the scope of an operation
* `Rule.found`: what a rule finds in a document

## Main Statements

* `Rule.run_adds`: running a rule adds what it finds
* `Validator.runRules_bindTo_violations`: a check gives what the rules find in
  turn
-/

namespace GraphQLStatics

/-! ### Directives and definitions -/

/-- What is wrong with a directive in view of those before it in its list. -/
def directiveFindings (schema : Schema) (doc : Document) (location : DirectiveLocation)
    (earlier : List DirectiveUse) (d : DirectiveUse) : List Violation :=
  match schema.directive? d.name with
  | none => [.directiveNotSupported d.name (doc.place d.position)]
  | some directive =>
    (if location ∈ directive.locations then []
      else [.directiveMisplaced d.name location (doc.place d.position)]) ++
    (if !directive.repeatable && earlier.any (·.name = d.name) then
        [.directiveNotUnique d.name (doc.place d.position)]
      else [])

/-- What is wrong with the directives of one element. -/
def siteFindings (schema : Schema) (doc : Document) (site : DirectiveSite) : List Violation :=
  withEarlier (directiveFindings schema doc site.location) [] site.directives

/-- The directives that a later one of the same name must not follow. -/
def DirectiveUse.countsFor (schema : Schema) (name : String) (d : DirectiveUse) : Bool :=
  decide (d.name = name) && (schema.directive? d.name).any (!·.repeatable)

theorem any_countsFor {schema : Schema} {name : String} {directive : DirectiveDef}
    (defined : schema.directive? name = some directive) (once : directive.repeatable = false)
    (earlier : List DirectiveUse) :
    earlier.any (DirectiveUse.countsFor schema name) = earlier.any (·.name = name) := by
  have same : ∀ d : DirectiveUse, d.countsFor schema name = decide (d.name = name) := by
    intro d
    by_cases h : d.name = name
    · simp [DirectiveUse.countsFor, h, defined, once]
    · simp [DirectiveUse.countsFor, h]
  simp only [funext same]

theorem checkDirective_gains (schema : Schema) (doc : Document) (location : DirectiveLocation)
    (w : Workspace) (earlier : List DirectiveUse) (d : DirectiveUse)
    (knows : w.Knows (DirectiveUse.countsFor schema) earlier) :
    w.Gains (directiveFindings schema doc location earlier d)
        (checkDirective schema doc location w d) ∧
      (checkDirective schema doc location w d).Knows (DirectiveUse.countsFor schema)
        (earlier ++ [d]) := by
  unfold checkDirective directiveFindings
  cases defined : schema.directive? d.name with
  | none =>
      refine ⟨Workspace.Gains.report w _, knows.snoc ?_⟩
      intro name
      simp [DirectiveUse.countsFor, defined]
  | some directive =>
      have valid : location ∈ directive.locations ↔ directive.validIn location = true :=
        List.contains_iff_mem.symm
      simp only [valid]
      have placed := Workspace.Gains.report_unless w (directive.validIn location)
        (.directiveMisplaced d.name location (doc.place d.position))
      have sameNames : ∀ name, (if directive.validIn location then w
          else w.report (.directiveMisplaced d.name location (doc.place d.position))).hasName
            name = w.hasName name := by
        intro name
        split <;> rfl
      generalize (if directive.validIn location then w
        else w.report (.directiveMisplaced d.name location (doc.place d.position))) = w'
        at placed sameNames ⊢
      cases once : directive.repeatable with
      | true =>
          refine ⟨by simpa using placed, knows.snoc ?_⟩
          intro name
          simp [sameNames, DirectiveUse.countsFor, defined, once]
      | false =>
          have known : earlier.any (·.name = d.name) = w'.hasName d.name := by
            rw [sameNames, knows, any_countsFor defined once]
          simp only [Bool.false_eq_true, if_false, Bool.not_false, Bool.true_and, known]
          refine ⟨placed.trans (Workspace.gains_note w' d.name _), knows.snoc ?_⟩
          intro name
          rw [Workspace.hasName_note, sameNames]
          simp [DirectiveUse.countsFor, defined, once, eq_comm]

theorem checkDirectiveSite_gains (schema : Schema) (doc : Document) (w : Workspace)
    (site : DirectiveSite) :
    w.Gains (siteFindings schema doc site) (checkDirectiveSite schema doc w site) := by
  have cleared := Workspace.Gains.clearNames w
  exact cleared.trans (Workspace.gains_foldl_withEarlier
    (checkDirective_gains schema doc site.location) site.directives
    (Workspace.knows_clearNames w _))

theorem checkDirectives_gains {doc : Document} (schema : Schema) {w : Workspace}
    (bound : w.BoundTo doc) :
    w.Gains (doc.directiveSites.flatMap (siteFindings schema doc))
      (checkDirectives schema doc w) :=
  Workspace.gains_foldl (fun w site _ => checkDirectiveSite_gains schema doc w site) _ bound

/-- A definition that cannot be executed. -/
def definitionFindings (doc : Document) (definition : Definition) : List Violation :=
  if definition.isExecutable then [] else [.notExecutable (doc.place definition.position)]

theorem checkExecutable_gains {doc : Document} {w : Workspace} (bound : w.BoundTo doc) :
    w.Gains (doc.definitions.flatMap (definitionFindings doc)) (checkExecutable doc w) :=
  Workspace.gains_foldl
    (fun w definition _ => Workspace.Gains.report_unless w definition.isExecutable _) _ bound

/-! ### Fields -/

/-- What is wrong with a field that is selected on a composite type. -/
def fieldOnFindings (schema : Schema) (doc : Document) (scope : TypeDef) (f : FieldUse) :
    List Violation :=
  if isMetaField schema scope f.name then []
  else if scope.isUnion then [.fieldOnUnion f.name scope.name (doc.place f.position)]
  else if (scope.field? f.name).isNone then
    [.fieldDoesNotExist f.name scope.name (doc.place f.position)]
  else []

/-- What is wrong with the field of a visit. -/
def visitFieldFindings (schema : Schema) (doc : Document) (visit : Visit) : List Violation :=
  match visit.selection, visit.scope with
  | .field f _, some scope =>
    if scope.isComposite then fieldOnFindings schema doc scope f else []
  | _, _ => []

theorem checkField_gains (schema : Schema) (doc : Document) (w : Workspace) (visit : Visit) :
    w.Gains (visitFieldFindings schema doc visit) (checkField schema doc w visit) := by
  obtain ⟨selection, scope⟩ := visit
  cases selection with
  | spread f => exact Workspace.Gains.refl w
  | inline f sub => exact Workspace.Gains.refl w
  | field f sub =>
      cases scope with
      | none => exact Workspace.Gains.refl w
      | some scope =>
          simp only [checkField, visitFieldFindings, checkFieldOn, fieldOnFindings]
          split
          · split
            · exact Workspace.Gains.refl w
            · split
              · exact Workspace.Gains.report w _
              · split
                · exact Workspace.Gains.report w _
                · exact Workspace.Gains.refl w
          · exact Workspace.Gains.refl w

/-- The fields of some visits. -/
theorem foldl_checkField_gains {doc : Document} (schema : Schema) (visits : List Visit)
    {w : Workspace} (bound : w.BoundTo doc) :
    w.Gains (visits.flatMap (visitFieldFindings schema doc))
      (visits.foldl (checkField schema doc) w) :=
  Workspace.gains_foldl (fun w visit _ => checkField_gains schema doc w visit) visits bound

/-! ### Fragments -/

/-- A fragment with the name of an earlier one. -/
def nameFindings (doc : Document) (earlier : List Fragment) (frag : Fragment) :
    List Violation :=
  if earlier.any (·.name = frag.name) then
    [.fragmentNameNotUnique frag.name (doc.place frag.position)]
  else []

theorem checkNames_gains (doc : Document) (w : Workspace) :
    w.Gains (withEarlier (nameFindings doc) [] doc.fragments) (checkNames doc w) := by
  have step : ∀ (w : Workspace) (earlier : List Fragment) (frag : Fragment),
      w.Knows (fun name other => decide (other.name = name)) earlier →
        w.Gains (nameFindings doc earlier frag) (checkName doc w frag) ∧
          (checkName doc w frag).Knows (fun name other => decide (other.name = name))
            (earlier ++ [frag]) := by
    intro w earlier frag knows
    unfold checkName nameFindings
    rw [← knows frag.name]
    refine ⟨Workspace.gains_note w frag.name _, knows.snoc ?_⟩
    intro name
    rw [Workspace.hasName_note]
    simp only [eq_comm]
  exact (Workspace.Gains.clearNames w).trans
    (Workspace.gains_foldl_withEarlier step doc.fragments (Workspace.knows_clearNames w _))

/-- What is wrong with a type condition. -/
def conditionFindings (schema : Schema) (doc : Document) (position : Position)
    (name : String) : List Violation :=
  match schema.type? name with
  | none => [.conditionUnknown name (doc.place position)]
  | some t => if t.isComposite then [] else [.conditionNotComposite name (doc.place position)]

/-- What can be wrong with a type condition. -/
theorem of_mem_conditionFindings {schema : Schema} {doc : Document} {position : Position}
    {name : String} {v : Violation} {P : Violation → Prop}
    (mem : v ∈ conditionFindings schema doc position name)
    (unknown : P (.conditionUnknown name (doc.place position)))
    (notComposite : P (.conditionNotComposite name (doc.place position))) : P v := by
  unfold conditionFindings at mem
  split at mem
  · exact List.mem_singleton.mp mem ▸ unknown
  · split at mem
    · cases mem
    · exact List.mem_singleton.mp mem ▸ notComposite

theorem checkCondition_gains (schema : Schema) (doc : Document) (position : Position)
    (name : String) (w : Workspace) :
    w.Gains (conditionFindings schema doc position name)
      (checkCondition schema doc position name w) := by
  unfold checkCondition conditionFindings
  cases schema.type? name with
  | none => exact Workspace.Gains.report w _
  | some t => exact Workspace.Gains.report_unless w t.isComposite _

theorem checkConditions_gains {doc : Document} (schema : Schema) {w : Workspace}
    (bound : w.BoundTo doc) :
    w.Gains (doc.fragments.flatMap fun frag =>
        conditionFindings schema doc frag.position frag.condition)
      (checkConditions schema doc w) :=
  Workspace.gains_foldl
    (fun w frag _ => checkCondition_gains schema doc frag.position frag.condition w) _ bound

/-- Selections on a type that cannot apply within selections on another. -/
def possibleFindings (schema : Schema) (doc : Document) (position : Position)
    (fragment : Option String) (scope condition : Option TypeDef) : List Violation :=
  match scope, condition with
  | some scope, some condition =>
    if scope.isComposite && condition.isComposite && !schema.overlap scope condition then
      [.spreadNotPossible fragment scope.name condition.name (doc.place position)]
    else []
  | _, _ => []

/-- What can be wrong with the types of a spread or an inline fragment. -/
theorem of_mem_possibleFindings {schema : Schema} {doc : Document} {position : Position}
    {fragment : Option String} {scope condition : Option TypeDef} {v : Violation}
    {P : Violation → Prop}
    (mem : v ∈ possibleFindings schema doc position fragment scope condition)
    (notPossible : ∀ scope condition,
      P (.spreadNotPossible fragment scope condition (doc.place position))) : P v := by
  unfold possibleFindings at mem
  split at mem
  · split at mem
    · exact List.mem_singleton.mp mem ▸ notPossible _ _
    · cases mem
  · cases mem

theorem checkPossible_gains (schema : Schema) (doc : Document) (position : Position)
    (fragment : Option String) (scope condition : Option TypeDef) (w : Workspace) :
    w.Gains (possibleFindings schema doc position fragment scope condition)
      (checkPossible schema doc position fragment scope condition w) := by
  cases scope with
  | none => exact Workspace.Gains.refl w
  | some scope =>
      cases condition with
      | none => exact Workspace.Gains.refl w
      | some condition =>
          simp only [checkPossible, possibleFindings]
          split
          · exact Workspace.Gains.report w _
          · exact Workspace.Gains.refl w

/-- What is wrong with the spread or inline fragment of a visit. -/
def visitFragmentFindings (schema : Schema) (doc : Document) (visit : Visit) :
    List Violation :=
  match visit.selection with
  | .field _ _ => []
  | .spread f =>
    match doc.lastFragment? f.fragment with
    | none => [.spreadTargetUndefined f.fragment (doc.place f.position)]
    | some target =>
      possibleFindings schema doc f.position (some f.fragment) visit.scope
        (schema.fragmentScope target)
  | .inline f _ =>
    match f.condition with
    | none => []
    | some name =>
      conditionFindings schema doc f.position name ++
        possibleFindings schema doc f.position none visit.scope (schema.type? name)

/-- What can be wrong with the spread or inline fragment of a visit. -/
theorem of_mem_visitFragmentFindings {schema : Schema} {doc : Document} {visit : Visit}
    {v : Violation} {P : Violation → Prop} (mem : v ∈ visitFragmentFindings schema doc visit)
    (undefined : ∀ name position, P (.spreadTargetUndefined name (doc.place position)))
    (unknown : ∀ name position, P (.conditionUnknown name (doc.place position)))
    (notComposite : ∀ name position, P (.conditionNotComposite name (doc.place position)))
    (notPossible : ∀ fragment scope condition position,
      P (.spreadNotPossible fragment scope condition (doc.place position))) : P v := by
  unfold visitFragmentFindings at mem
  split at mem
  · cases mem
  · split at mem
    · exact List.mem_singleton.mp mem ▸ undefined _ _
    · exact of_mem_possibleFindings mem fun _ _ => notPossible _ _ _ _
  · split at mem
    · cases mem
    · rcases List.mem_append.mp mem with inCondition | inTypes
      · exact of_mem_conditionFindings inCondition (unknown _ _) (notComposite _ _)
      · exact of_mem_possibleFindings inTypes fun _ _ => notPossible _ _ _ _

theorem checkSelection_gains {doc : Document} (schema : Schema) (w : Workspace)
    (visit : Visit) (bound : w.BoundTo doc) :
    w.Gains (visitFragmentFindings schema doc visit) (checkSelection schema doc w visit) := by
  obtain ⟨selection, scope⟩ := visit
  cases selection with
  | field f sub => exact Workspace.Gains.refl w
  | spread f =>
      simp only [checkSelection, visitFragmentFindings, bound.fragment?_eq]
      cases doc.lastFragment? f.fragment with
      | none => exact Workspace.Gains.report w _
      | some target => exact checkPossible_gains schema doc _ _ _ _ w
  | inline f sub =>
      simp only [checkSelection, visitFragmentFindings]
      cases f.condition with
      | none => exact Workspace.Gains.refl w
      | some name =>
          exact (checkCondition_gains schema doc f.position name w).trans
            (checkPossible_gains schema doc _ _ _ _ _)

theorem checkSelections_gains {doc : Document} (schema : Schema) {w : Workspace}
    (bound : w.BoundTo doc) :
    w.Gains ((doc.walk schema).flatMap (visitFragmentFindings schema doc))
      (checkSelections schema doc w) :=
  Workspace.gains_foldl (checkSelection_gains schema) _ bound

/-- The names that are reached from some operation. -/
def Document.usedNames (doc : Document) : List String :=
  (markUsed doc (Workspace.fresh.bindTo doc)).visited

/-- A fragment that is reached from no operation. -/
def unusedFindings (doc : Document) (frag : Fragment) : List Violation :=
  if doc.usedNames.contains frag.name then []
  else [.fragmentNotUsed frag.name (doc.place frag.position)]

/-- Marking from several selection sets gains nothing, and the marks depend on
the index alone. -/
theorem markUsed_gains {doc : Document} {w : Workspace} (bound : w.BoundTo doc) :
    w.Gains [] (markUsed doc w) ∧ (markUsed doc w).visited = doc.usedNames := by
  have both : ∀ (ops : List Operation) (w w' : Workspace),
      w.fragmentIndex = w'.fragmentIndex → w.visited = w'.visited →
        w.Gains [] (ops.foldl (fun w op => (reachable doc op.selections w).2) w) ∧
          (ops.foldl (fun w op => (reachable doc op.selections w).2) w).visited =
            (ops.foldl (fun w op => (reachable doc op.selections w).2) w').visited := by
    intro ops
    induction ops with
    | nil => exact fun w w' _ visited => ⟨Workspace.Gains.refl w, visited⟩
    | cons op rest ih =>
        intro w w' index visited
        have head := Workspace.Gains.reachable doc op.selections w
        have head' := Workspace.Gains.reachable doc op.selections w'
        have sameMarks := (reachable_congr doc op.selections index visited).2
        obtain ⟨tail, marks⟩ := ih (reachable doc op.selections w).2
          (reachable doc op.selections w').2
          (head.fragmentIndex.trans (index.trans head'.fragmentIndex.symm)) sameMarks
        exact ⟨head.trans tail, marks⟩
  obtain ⟨gains, marks⟩ := both doc.operations w.clearVisited
    (Workspace.fresh.bindTo doc).clearVisited bound rfl
  exact ⟨(Workspace.Gains.clearVisited w).trans gains, marks⟩

theorem checkUsage_gains {doc : Document} {w : Workspace} (bound : w.BoundTo doc) :
    w.Gains (doc.fragments.flatMap (unusedFindings doc)) (checkUsage doc w) := by
  obtain ⟨gains, marks⟩ := markUsed_gains bound
  have step : ∀ (w : Workspace) (frag : Fragment), w.visited = doc.usedNames →
      w.Gains (unusedFindings doc frag) (checkUsed doc w frag) ∧
        (checkUsed doc w frag).visited = doc.usedNames := by
    intro w frag marks
    unfold checkUsed unusedFindings Workspace.isVisited
    rw [marks]
    split
    · exact ⟨Workspace.Gains.refl w, marks⟩
    · exact ⟨Workspace.Gains.report w _, marks⟩
  exact gains.trans (Workspace.gains_foldl_of_invariant step doc.fragments marks)

/-- The cycles that the search in a fresh workspace reports. -/
def cycleFindings (doc : Document) : List Violation :=
  (checkCycles doc (Workspace.fresh.bindTo doc)).violations

/-- What is wrong with the fragments of a document. -/
def fragmentFindings (schema : Schema) (doc : Document) : List Violation :=
  withEarlier (nameFindings doc) [] doc.fragments ++
    (doc.fragments.flatMap fun frag =>
      conditionFindings schema doc frag.position frag.condition) ++
    (doc.walk schema).flatMap (visitFragmentFindings schema doc) ++
    doc.fragments.flatMap (unusedFindings doc) ++ cycleFindings doc

/-- Without marks and path the search finds what it finds in a fresh
workspace. -/
theorem checkCycles_adds {doc : Document} {w : Workspace} (bound : w.BoundTo doc)
    (noMarks : w.marks = .empty) (noPath : w.spreadPath = []) :
    w.Adds (cycleFindings doc) (checkCycles doc w) := by
  have blank : (Workspace.fresh.bindTo doc).onto w = w := by
    change { w with violations := w.violations ++ [], marks := .empty, spreadPath := [] } = w
    rw [List.append_nil, ← noMarks, ← noPath]
  have carried := checkCycles_onto (Workspace.boundTo_bindTo Workspace.fresh doc) bound
  rw [blank] at carried
  rw [carried]
  exact ⟨rfl, rfl, rfl⟩

theorem checkFragments_adds {doc : Document} (schema : Schema) {w : Workspace}
    (bound : w.BoundTo doc) (noMarks : w.marks = .empty) (noPath : w.spreadPath = []) :
    w.Adds (fragmentFindings schema doc) (checkFragments schema doc w) := by
  have names := checkNames_gains doc w
  have conditions := names.trans (checkConditions_gains schema (names.boundTo bound))
  have selections := conditions.trans (checkSelections_gains schema (conditions.boundTo bound))
  have usage := selections.trans (checkUsage_gains (selections.boundTo bound))
  exact usage.toAdds.trans (checkCycles_adds (usage.boundTo bound)
    (usage.marks.trans noMarks) (usage.spreadPath.trans noPath))

/-! ### Variables -/

/-- The fragments that are reached from a selection set. -/
def Document.reached (doc : Document) (set : SelectionSet) : List Fragment :=
  (reachable doc set (Workspace.fresh.bindTo doc)).1

theorem Document.mem_reached {doc : Document} {set : SelectionSet} {frag : Fragment} :
    frag ∈ doc.reached set ↔ doc.ReachesFragment set frag :=
  mem_reachable_clearVisited set (Workspace.boundTo_bindTo Workspace.fresh doc) frag

/-- The arguments of an operation itself. -/
def Operation.ownArguments (schema : Schema) (op : Operation) : List ArgumentUse :=
  directiveArguments schema op.directives ++
    op.selections.arguments schema (schema.root? op.kind)

/-- The arguments of a fragment itself. -/
def Fragment.ownArguments (schema : Schema) (frag : Fragment) : List ArgumentUse :=
  directiveArguments schema frag.directives ++
    frag.selections.arguments schema (schema.fragmentScope frag)

/-- The arguments of an operation and of the fragments reached from it. -/
def scopeArguments (schema : Schema) (doc : Document) (op : Operation) : List ArgumentUse :=
  op.ownArguments schema ++ (doc.reached op.selections).flatMap (Fragment.ownArguments schema)

theorem mem_scopeArguments {schema : Schema} {doc : Document} {op : Operation}
    {argument : ArgumentUse} :
    argument ∈ scopeArguments schema doc op ↔
      argument ∈ op.ownArguments schema ∨
        ∃ frag, doc.ReachesFragment op.selections frag ∧ argument ∈ frag.ownArguments schema := by
  simp only [scopeArguments, List.mem_append, List.mem_flatMap, Document.mem_reached]

theorem operationArguments_gains {doc : Document} (schema : Schema) (op : Operation)
    {w : Workspace} (bound : w.BoundTo doc) :
    (operationArguments schema doc op w).1 = scopeArguments schema doc op ∧
      w.Gains [] (operationArguments schema doc op w).2 := by
  have sameIndex : w.clearVisited.fragmentIndex =
      (Workspace.fresh.bindTo doc).fragmentIndex := bound
  have sameReached : (reachable doc op.selections w.clearVisited).1 =
      doc.reached op.selections :=
    (reachable_congr doc op.selections sameIndex rfl).1
  refine ⟨?_, (Workspace.Gains.clearVisited w).trans
    (Workspace.Gains.reachable doc op.selections w.clearVisited)⟩
  rw [scopeArguments, ← sameReached]
  rfl

/-- A variable that is used and not declared. -/
def undeclaredFindings (doc : Document) (op : Operation) (use : String × Position) :
    List Violation :=
  if op.declares use.1 then []
  else [.variableNotDeclared op.name use.1 (doc.place use.2) (doc.place op.position)]

/-- A variable that is declared, for the first time, and not used. -/
def unusedVariableFindings (doc : Document) (op : Operation) (used : OrderedMap Position)
    (earlier : List VariableDefinition) (v : VariableDefinition) : List Violation :=
  if used.contains v.name || earlier.any (·.name = v.name) then []
  else [.variableNotUsed op.name v.name (doc.place v.position)]

/-- What is wrong with the variables that an operation declares and uses. -/
def useFindings (schema : Schema) (doc : Document) (op : Operation) : List Violation :=
  let used := firstUses schema (scopeArguments schema doc op)
  used.entries.flatMap (undeclaredFindings doc op) ++
    withEarlier (unusedVariableFindings doc op used) [] op.declared

theorem checkDeclaredUsed_gains (doc : Document) (op : Operation)
    (used : OrderedMap Position) (w : Workspace) (earlier : List VariableDefinition)
    (v : VariableDefinition)
    (knows : w.Knows (fun name e => decide (e.name = name) && !used.contains e.name) earlier) :
    w.Gains (unusedVariableFindings doc op used earlier v) (checkDeclaredUsed doc op used w v) ∧
      (checkDeclaredUsed doc op used w v).Knows
        (fun name e => decide (e.name = name) && !used.contains e.name) (earlier ++ [v]) := by
  unfold checkDeclaredUsed unusedVariableFindings
  cases isUsed : used.contains v.name with
  | true =>
      refine ⟨Workspace.Gains.refl w, knows.snoc ?_⟩
      simp [isUsed]
  | false =>
      have sameTest : earlier.any (fun e => decide (e.name = v.name) && !used.contains e.name) =
          earlier.any (·.name = v.name) := by
        refine List.any_congr rfl ?_
        intro e
        by_cases same : e.name = v.name
        · simp [same, isUsed]
        · simp [same]
      have known := knows v.name
      rw [sameTest] at known
      simp only [Bool.false_or, ← known]
      cases hasName : w.hasName v.name with
      | true =>
          refine ⟨Workspace.Gains.refl w, knows.snoc ?_⟩
          intro name
          by_cases same : v.name = name
          · simp [← same, hasName]
          · simp [same]
      | false =>
          refine ⟨(Workspace.Gains.addName w v.name).trans (Workspace.Gains.report _ _),
            knows.snoc ?_⟩
          intro name
          simp only [Bool.false_eq_true, if_false, Workspace.hasName_report,
            Workspace.hasName_addName, isUsed, Bool.not_false, Bool.and_true, eq_comm]

theorem foldl_checkDeclared_gains {doc : Document} (op : Operation)
    (uses : List (String × Position)) {w : Workspace} (bound : w.BoundTo doc) :
    w.Gains (uses.flatMap (undeclaredFindings doc op)) (uses.foldl (checkDeclared doc op) w) :=
  Workspace.gains_foldl
    (fun w use _ => Workspace.Gains.report_unless w (op.declares use.1) _) uses bound

theorem foldl_checkDeclaredUsed_gains (doc : Document) (op : Operation)
    (used : OrderedMap Position) (w : Workspace) :
    w.Gains (withEarlier (unusedVariableFindings doc op used) [] op.declared)
      (op.declared.foldl (checkDeclaredUsed doc op used) w.clearNames) :=
  (Workspace.Gains.clearNames w).trans
    (Workspace.gains_foldl_withEarlier (checkDeclaredUsed_gains doc op used) op.declared
      (Workspace.knows_clearNames w _))

theorem checkOperationUses_gains {doc : Document} (schema : Schema) (w : Workspace)
    (op : Operation) (bound : w.BoundTo doc) :
    w.Gains (useFindings schema doc op) (checkOperationUses schema doc w op) := by
  obtain ⟨sameArguments, gathered⟩ := operationArguments_gains schema op bound
  rw [useFindings, ← sameArguments]
  exact gathered.trans ((foldl_checkDeclared_gains op _ (gathered.boundTo bound)).trans
    (foldl_checkDeclaredUsed_gains doc op _ _))

/-- What is wrong with the variables of an operation where they are used. -/
def usageFindings (schema : Schema) (doc : Document) (op : Operation) : List Violation :=
  (scopeArguments schema doc op).flatMap (ArgumentUse.violations schema doc op)

theorem checkOperationUsages_gains {doc : Document} (schema : Schema) (w : Workspace)
    (op : Operation) (bound : w.BoundTo doc) :
    w.Gains (usageFindings schema doc op) (checkOperationUsages schema doc w op) := by
  obtain ⟨sameArguments, gathered⟩ := operationArguments_gains schema op bound
  rw [usageFindings, ← sameArguments]
  exact gathered.trans (Workspace.gains_foldl_report _ _)

/-- What is wrong with the name and the type of a variable. -/
def variableFindings (schema : Schema) (doc : Document) (op : Operation)
    (earlier : List VariableDefinition) (v : VariableDefinition) : List Violation :=
  (if earlier.any (·.name = v.name) then
      [.variableNameNotUnique op.name v.name (doc.place v.position)]
    else []) ++
  (if schema.hasInputType (TypeRef.ofExpr v.type).innermostName then []
    else [.variableNotInput v.name (TypeRef.ofExpr v.type).innermostName
      (doc.place v.position)])

theorem checkVariable_gains (schema : Schema) (doc : Document) (op : Operation)
    (w : Workspace) (earlier : List VariableDefinition) (v : VariableDefinition)
    (knows : w.Knows (fun name e => decide (e.name = name)) earlier) :
    w.Gains (variableFindings schema doc op earlier v) (checkVariable schema doc op w v) ∧
      (checkVariable schema doc op w v).Knows (fun name e => decide (e.name = name))
        (earlier ++ [v]) := by
  unfold checkVariable variableFindings
  rw [← knows v.name]
  refine ⟨(Workspace.gains_note w v.name _).trans (Workspace.Gains.report_unless _ _ _),
    knows.snoc ?_⟩
  intro name
  have noted := Workspace.hasName_note w v.name
    (.variableNameNotUnique op.name v.name (doc.place v.position)) name
  simp only [@eq_comm _ v.name]
  rw [← noted]
  split
  · rfl
  · rfl

theorem checkOperationVariables_gains (schema : Schema) (doc : Document) (w : Workspace)
    (op : Operation) :
    w.Gains (withEarlier (variableFindings schema doc op) [] op.declared)
      (checkOperationVariables schema doc w op) :=
  (Workspace.Gains.clearNames w).trans
    (Workspace.gains_foldl_withEarlier (checkVariable_gains schema doc op) op.declared
      (Workspace.knows_clearNames w _))

/-! ### The rules -/

namespace Rule

/-- What a rule finds in a document. -/
def found (rule : Rule) (schema : Schema) (doc : Document) : List Violation :=
  match rule with
  | .directivesAreValid => doc.directiveSites.flatMap (siteFindings schema doc)
  | .executableDefinitions => doc.definitions.flatMap (definitionFindings doc)
  | .fieldMustBeDefined => (doc.walk schema).flatMap (visitFieldFindings schema doc)
  | .fragmentsAreValid => fragmentFindings schema doc
  | .allVariablesUsed => doc.operations.flatMap (useFindings schema doc)
  | .allVariableUsagesAreAllowed => doc.operations.flatMap (usageFindings schema doc)
  | .variableUniqueAndInputType =>
    doc.operations.flatMap fun op => withEarlier (variableFindings schema doc op) [] op.declared

/-- Running a rule in a bound workspace with cleared scratch adds what the rule
finds. -/
theorem run_adds {doc : Document} (rule : Rule) (schema : Schema) {w : Workspace}
    (bound : w.BoundTo doc) :
    w.Adds (rule.found schema doc) (rule.run schema doc w.clearScratch) := by
  have cleared : w.Adds [] w.clearScratch := ⟨(List.append_nil _).symm, rfl, rfl⟩
  have bound' : w.clearScratch.BoundTo doc := bound
  suffices added : w.clearScratch.Adds (rule.found schema doc)
      (rule.run schema doc w.clearScratch) from cleared.trans added
  cases rule with
  | directivesAreValid => exact (checkDirectives_gains schema bound').toAdds
  | executableDefinitions => exact (checkExecutable_gains bound').toAdds
  | fieldMustBeDefined => exact (foldl_checkField_gains schema _ bound').toAdds
  | fragmentsAreValid => exact checkFragments_adds schema bound' rfl rfl
  | allVariablesUsed =>
      exact (Workspace.gains_foldl (checkOperationUses_gains schema) _ bound').toAdds
  | allVariableUsagesAreAllowed =>
      exact (Workspace.gains_foldl (checkOperationUsages_gains schema) _ bound').toAdds
  | variableUniqueAndInputType =>
      exact (Workspace.gains_foldl
        (fun w op _ => checkOperationVariables_gains schema doc w op) _ bound').toAdds

end Rule

namespace Validator

/-- Running rules in turn adds what each of them finds. -/
theorem runRules_adds {doc : Document} (schema : Schema) (rules : List Rule) {w : Workspace}
    (bound : w.BoundTo doc) :
    w.Adds (rules.flatMap fun rule => rule.found schema doc) (runRules schema doc rules w) := by
  induction rules generalizing w with
  | nil => exact ⟨(List.append_nil _).symm, rfl, rfl⟩
  | cons rule rest ih =>
      have head := rule.run_adds schema bound
      exact head.trans (ih (head.fragmentIndex.trans bound))

/-- A check in a workspace without violations gives what the rules find. -/
theorem runRules_bindTo_violations (schema : Schema) (doc : Document) (rules : List Rule)
    {w : Workspace} (noViolations : w.violations = []) :
    (runRules schema doc rules (w.bindTo doc)).violations =
      rules.flatMap fun rule => rule.found schema doc := by
  rw [(runRules_adds schema rules (Workspace.boundTo_bindTo w doc)).violations]
  change w.violations ++ _ = _
  rw [noViolations, List.nil_append]

end Validator

end GraphQLStatics
