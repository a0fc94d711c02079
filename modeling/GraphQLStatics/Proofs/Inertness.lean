import GraphQLStatics.Proofs.Composition

/-!
# Definitions of the type system are inert

A document may hold definitions of the type system between its operations and
fragments.  The rule about executable definitions reports each of them.  For
every other rule they might as well not be there.

This is not plain to see, because the index of a workspace holds positions
among all definitions, and every definition of the type system shifts those
after it.  What helps is that the index enters only through the fragments that
it leads to, and these are the last fragments of their names in the document and
in its executable part alike.  So everything that reads the index commutes with
binding the workspace to the executable part instead.

## Main Definitions

* `Document.executablePart`: the document without the type system
* `Document.typeSystemDefinitions`: what is left out there
* `Document.notExecutables`: the violations that report it

## Main Statements

* `reachableWithin_executablePart`, `checkCycles_executablePart`: the searches
  along spreads
* `Rule.found_executablePart`: what the other rules find
* `filter_validate_eq_validate_executablePart`: what a validator reports
-/

namespace GraphQLStatics

/-! ### The executable part of a document -/

/-- The definition of the type system that a definition is. -/
def Definition.typeSystem? : Definition → Option TypeSystemDefinition
  | .typeSystem definition => some definition
  | _ => none

namespace Document

/-- The document without its definitions of the type system. -/
def executablePart (doc : Document) : Document :=
  { doc with definitions := doc.definitions.filter Definition.isExecutable }

/-- The definitions of the type system, in order. -/
def typeSystemDefinitions (doc : Document) : List TypeSystemDefinition :=
  doc.definitions.filterMap Definition.typeSystem?

/-- One violation for each definition of the type system, in order. -/
def notExecutables (doc : Document) : List Violation :=
  doc.typeSystemDefinitions.map fun definition =>
    .notExecutable (doc.place definition.position)

/-- What is gathered from definitions other than those of the type system is the
same in the executable part. -/
theorem filterMap_executablePart {α : Type} {gather : Definition → Option α}
    (passes : ∀ definition, gather (.typeSystem definition) = none) (doc : Document) :
    doc.executablePart.definitions.filterMap gather = doc.definitions.filterMap gather := by
  rw [executablePart, List.filterMap_filter]
  refine List.filterMap_congr ?_
  intro definition _
  cases definition with
  | operation op => rfl
  | fragment frag => rfl
  | typeSystem definition => exact (passes definition).symm

@[simp] theorem operations_executablePart (doc : Document) :
    doc.executablePart.operations = doc.operations :=
  filterMap_executablePart (fun _ => rfl) doc

@[simp] theorem fragments_executablePart (doc : Document) :
    doc.executablePart.fragments = doc.fragments :=
  filterMap_executablePart (fun _ => rfl) doc

@[simp] theorem directiveSites_executablePart (doc : Document) :
    doc.executablePart.directiveSites = doc.directiveSites := by
  rw [directiveSites, directiveSites, executablePart]
  induction doc.definitions with
  | nil => rfl
  | cons definition rest ih =>
      cases definition with
      | operation op => exact congrArg (_ ++ ·) ih
      | fragment frag => exact congrArg (_ ++ ·) ih
      | typeSystem definition => exact ih

@[simp] theorem walk_executablePart (doc : Document) (schema : Schema) :
    doc.executablePart.walk schema = doc.walk schema := by
  rw [walk, walk, operations_executablePart, fragments_executablePart]

@[simp] theorem lastFragment?_executablePart (doc : Document) (name : String) :
    doc.executablePart.lastFragment? name = doc.lastFragment? name := by
  rw [lastFragment?, lastFragment?, fragments_executablePart]

@[simp] theorem spreadCount_executablePart (doc : Document) :
    doc.executablePart.spreadCount = doc.spreadCount := by
  rw [spreadCount, spreadCount, fragments_executablePart]

end Document

/-- Bound to the document or to its executable part, a workspace finds the same
fragments. -/
theorem Workspace.BoundTo.fragment?_bindTo_executablePart {w : Workspace} {doc : Document}
    (bound : w.BoundTo doc) (name : String) :
    (w.bindTo doc.executablePart).fragment? doc.executablePart name = w.fragment? doc name := by
  have bound' : (w.bindTo doc.executablePart).BoundTo doc.executablePart :=
    Workspace.boundTo_bindTo w doc.executablePart
  rw [bound'.fragment?_eq, bound.fragment?_eq, Document.lastFragment?_executablePart]

/-! ### Marking the fragments that are reached -/

theorem Workspace.addVisited_bindTo (w : Workspace) (doc : Document) (name : String) :
    (w.bindTo doc).addVisited name = (w.addVisited name).bindTo doc := by
  have sameSeen : (w.bindTo doc).isVisited name = w.isVisited name := rfl
  rw [Workspace.addVisited, Workspace.addVisited, sameSeen]
  split <;> rfl

/-- Marking commutes with binding to the executable part. -/
theorem reachableWithin_executablePart (doc : Document) (n : Nat) (queue : List SpreadUse)
    {w : Workspace} (bound : w.BoundTo doc) :
    reachableWithin doc.executablePart n queue (w.bindTo doc.executablePart) =
      ((reachableWithin doc n queue w).1,
        (reachableWithin doc n queue w).2.bindTo doc.executablePart) := by
  induction n generalizing queue w with
  | zero => rfl
  | succ n ih =>
      cases queue with
      | nil => rfl
      | cons spread queue =>
          have sameSeen : (w.bindTo doc.executablePart).isVisited spread.fragment =
              w.isVisited spread.fragment := rfl
          have bound' := bound.addVisited spread.fragment
          rw [reachableWithin, reachableWithin, sameSeen, Workspace.addVisited_bindTo]
          cases w.isVisited spread.fragment with
          | true => exact ih queue bound
          | false =>
              simp only [Bool.false_eq_true, if_false,
                bound'.fragment?_bindTo_executablePart]
              cases (w.addVisited spread.fragment).fragment? doc spread.fragment with
              | none => exact ih queue bound'
              | some frag =>
                  dsimp only
                  rw [ih (queue ++ frag.selections.spreads) bound']

theorem reachable_executablePart (doc : Document) (set : SelectionSet) {w : Workspace}
    (bound : w.BoundTo doc) :
    reachable doc.executablePart set (w.bindTo doc.executablePart) =
      ((reachable doc set w).1, (reachable doc set w).2.bindTo doc.executablePart) := by
  rw [reachable, reachable, Document.spreadCount_executablePart]
  exact reachableWithin_executablePart doc _ set.spreads bound

@[simp] theorem Document.reached_executablePart (doc : Document) (set : SelectionSet) :
    doc.executablePart.reached set = doc.reached set := by
  have reached := congrArg Prod.fst
    (reachable_executablePart doc set (Workspace.boundTo_bindTo Workspace.fresh doc))
  exact reached

@[simp] theorem Document.usedNames_executablePart (doc : Document) :
    doc.executablePart.usedNames = doc.usedNames := by
  have along : ∀ (ops : List Operation) (w : Workspace), w.BoundTo doc →
      ops.foldl (fun w op => (reachable doc.executablePart op.selections w).2)
          (w.bindTo doc.executablePart) =
        (ops.foldl (fun w op => (reachable doc op.selections w).2) w).bindTo
          doc.executablePart := by
    intro ops
    induction ops with
    | nil => exact fun w _ => rfl
    | cons op rest ih =>
        intro w bound
        have head := reachable_executablePart doc op.selections bound
        have bound' := (Workspace.Gains.reachable doc op.selections w).boundTo bound
        rw [List.foldl_cons, List.foldl_cons, head]
        exact ih _ bound'
  have marked := congrArg Workspace.visited
    (along doc.operations (Workspace.fresh.bindTo doc).clearVisited rfl)
  rw [usedNames, usedNames, markUsed, markUsed, operations_executablePart]
  exact marked

@[simp] theorem scopeArguments_executablePart (schema : Schema) (doc : Document)
    (op : Operation) :
    scopeArguments schema doc.executablePart op = scopeArguments schema doc op := by
  rw [scopeArguments, scopeArguments, Document.reached_executablePart]

/-! ### The search for cycles -/

namespace CycleWalk

/-- The walk with its workspace bound to a document. -/
def bindTo (walk : CycleWalk) (doc : Document) : CycleWalk :=
  { walk with workspace := walk.workspace.bindTo doc }

theorem step_executablePart {doc : Document} {walk : CycleWalk}
    (bound : walk.workspace.BoundTo doc) :
    (walk.bindTo doc.executablePart).step doc.executablePart =
      (walk.step doc).bindTo doc.executablePart := by
  obtain ⟨frames, w⟩ := walk
  cases frames with
  | nil => rfl
  | cons top rest =>
      obtain ⟨frag, pending⟩ := top
      cases pending with
      | nil => rfl
      | cons spread pending =>
          have sameMark : (w.bindTo doc.executablePart).mark spread.fragment =
              w.mark spread.fragment := rfl
          have sameFound := bound.fragment?_bindTo_executablePart spread.fragment
          simp only [step, follow, bindTo, sameMark, sameFound]
          cases w.mark spread.fragment with
          | done => rfl
          | inProgress => rfl
          | unvisited =>
              cases w.fragment? doc spread.fragment with
              | none => rfl
              | some target => rfl

theorem run_executablePart {doc : Document} (n : Nat) {walk : CycleWalk}
    (bound : walk.workspace.BoundTo doc) :
    (walk.bindTo doc.executablePart).run doc.executablePart n =
      (walk.run doc n).bindTo doc.executablePart := by
  induction n generalizing walk with
  | zero => rfl
  | succ n ih =>
      have sameFrames : (walk.bindTo doc.executablePart).frames = walk.frames := rfl
      rw [run, run, sameFrames]
      by_cases empty : walk.frames = []
      · simp [empty]
      · have bound' : (walk.step doc).workspace.BoundTo doc :=
          (move_step bound empty).fragmentIndex.trans bound
        simp only [List.isEmpty_iff, empty, if_false]
        rw [step_executablePart bound, ih bound']

end CycleWalk

theorem checkCycle_executablePart {doc : Document} (frag : Fragment) {w : Workspace}
    (bound : w.BoundTo doc) :
    checkCycle doc.executablePart (w.bindTo doc.executablePart) frag =
      (checkCycle doc w frag).bindTo doc.executablePart := by
  have sameMark : (w.bindTo doc.executablePart).mark frag.name = w.mark frag.name := rfl
  unfold checkCycle
  rw [sameMark, bound.fragment?_bindTo_executablePart]
  cases w.mark frag.name with
  | done => rfl
  | inProgress => rfl
  | unvisited =>
      cases w.fragment? doc frag.name with
      | none => rfl
      | some target =>
          have startBound : (CycleWalk.enter ⟨[], w⟩ target).workspace.BoundTo doc := bound
          show walkFrom doc.executablePart target (w.bindTo doc.executablePart) = _
          rw [walkFrom, Document.spreadCount_executablePart, Document.fragments_executablePart]
          exact congrArg CycleWalk.workspace (CycleWalk.run_executablePart _ startBound)

/-- The search for cycles commutes with binding to the executable part. -/
theorem checkCycles_executablePart {doc : Document} {w : Workspace} (bound : w.BoundTo doc) :
    checkCycles doc.executablePart (w.bindTo doc.executablePart) =
      (checkCycles doc w).bindTo doc.executablePart := by
  unfold checkCycles
  rw [Document.fragments_executablePart]
  induction doc.fragments generalizing w with
  | nil => rfl
  | cons frag rest ih =>
      rw [List.foldl_cons, List.foldl_cons, checkCycle_executablePart frag bound]
      exact ih (checkCycle_boundTo frag bound)

@[simp] theorem cycleFindings_executablePart (doc : Document) :
    cycleFindings doc.executablePart = cycleFindings doc := by
  have found := congrArg Workspace.violations
    (checkCycles_executablePart (Workspace.boundTo_bindTo Workspace.fresh doc))
  exact found

/-! ### What the rules find -/

theorem visitFragmentFindings_executablePart (schema : Schema) (doc : Document) (visit : Visit) :
    visitFragmentFindings schema doc.executablePart visit =
      visitFragmentFindings schema doc visit := by
  unfold visitFragmentFindings
  simp only [Document.lastFragment?_executablePart]
  rfl

theorem fragmentFindings_executablePart (schema : Schema) (doc : Document) :
    fragmentFindings schema doc.executablePart = fragmentFindings schema doc := by
  have selections : visitFragmentFindings schema doc.executablePart =
      visitFragmentFindings schema doc :=
    funext (visitFragmentFindings_executablePart schema doc)
  have unused : unusedFindings doc.executablePart = unusedFindings doc := by
    funext frag
    rw [unusedFindings, Document.usedNames_executablePart]
    rfl
  rw [fragmentFindings, selections, unused, Document.fragments_executablePart,
    Document.walk_executablePart, cycleFindings_executablePart]
  rfl

theorem useFindings_executablePart (schema : Schema) (doc : Document) (op : Operation) :
    useFindings schema doc.executablePart op = useFindings schema doc op := by
  rw [useFindings, scopeArguments_executablePart]
  rfl

theorem usageFindings_executablePart (schema : Schema) (doc : Document) (op : Operation) :
    usageFindings schema doc.executablePart op = usageFindings schema doc op := by
  rw [usageFindings, scopeArguments_executablePart]
  rfl

namespace Rule

/-- Every rule but one finds the same in a document and in its executable
part. -/
theorem found_executablePart {rule : Rule} (other : rule ≠ .executableDefinitions)
    (schema : Schema) (doc : Document) :
    rule.found schema doc.executablePart = rule.found schema doc := by
  cases rule with
  | executableDefinitions => exact absurd rfl other
  | directivesAreValid =>
      show doc.executablePart.directiveSites.flatMap (siteFindings schema doc) = _
      rw [Document.directiveSites_executablePart]
      rfl
  | fieldMustBeDefined =>
      show (doc.executablePart.walk schema).flatMap (visitFieldFindings schema doc) = _
      rw [Document.walk_executablePart]
      rfl
  | fragmentsAreValid => exact fragmentFindings_executablePart schema doc
  | allVariablesUsed =>
      rw [found, found, Document.operations_executablePart,
        funext (useFindings_executablePart schema doc)]
  | allVariableUsagesAreAllowed =>
      rw [found, found, Document.operations_executablePart,
        funext (usageFindings_executablePart schema doc)]
  | variableUniqueAndInputType =>
      rw [found, found, Document.operations_executablePart]
      rfl

/-- The rule about executable definitions reports what is left out of the
executable part. -/
theorem found_executableDefinitions (schema : Schema) (doc : Document) :
    Rule.executableDefinitions.found schema doc = doc.notExecutables := by
  show doc.definitions.flatMap (definitionFindings doc) = _
  rw [Document.notExecutables, Document.typeSystemDefinitions]
  induction doc.definitions with
  | nil => rfl
  | cons definition rest ih =>
      cases definition with
      | operation op => exact ih
      | fragment frag => exact ih
      | typeSystem definition => exact congrArg (_ :: ·) ih

end Rule

theorem Document.notExecutables_executablePart (doc : Document) :
    doc.executablePart.notExecutables = [] := by
  have none : doc.executablePart.typeSystemDefinitions = [] := by
    rw [typeSystemDefinitions, executablePart, List.filterMap_eq_nil_iff]
    intro definition mem
    cases definition with
    | operation op => rfl
    | fragment frag => rfl
    | typeSystem definition => exact absurd (List.mem_filter.mp mem).2 Bool.false_ne_true
  rw [notExecutables, none, List.map_nil]

/-! ### What a validator reports -/

/-- Whether a violation reports a definition of the type system. -/
def Violation.isNotExecutable : Violation → Bool
  | .notExecutable _ => true
  | _ => false

theorem Violation.isNotExecutable_iff (v : Violation) :
    v.isNotExecutable = true ↔ v.rule = .executableDefinitions := by
  cases v <;> simp [isNotExecutable, Violation.rule]

namespace Rule

/-- Of what a rule finds, the part that reports definitions of the type
system. -/
theorem filter_isNotExecutable_found (rule : Rule) (schema : Schema) (doc : Document) :
    (rule.found schema doc).filter Violation.isNotExecutable =
      if rule = .executableDefinitions then doc.notExecutables else [] := by
  by_cases this : rule = .executableDefinitions
  · rw [if_pos this, this, found_executableDefinitions, List.filter_eq_self]
    intro v mem
    obtain ⟨definition, -, rfl⟩ := List.mem_map.mp mem
    rfl
  · rw [if_neg this, List.filter_eq_nil_iff]
    intro v mem
    rw [Violation.isNotExecutable_iff, (isOf_of_mem_found mem).1]
    exact this

/-- Of what a rule finds, the part that is about something else. -/
theorem filter_not_isNotExecutable_found (rule : Rule) (schema : Schema) (doc : Document) :
    (rule.found schema doc).filter (!·.isNotExecutable) =
      rule.found schema doc.executablePart := by
  by_cases this : rule = .executableDefinitions
  · rw [this, found_executableDefinitions, found_executableDefinitions,
      Document.notExecutables_executablePart, List.filter_eq_nil_iff]
    intro v mem
    obtain ⟨definition, -, rfl⟩ := List.mem_map.mp mem
    exact Bool.false_ne_true
  · rw [found_executablePart this, List.filter_eq_self]
    intro v mem
    have notThis : ¬ v.isNotExecutable = true := by
      rw [Violation.isNotExecutable_iff, (isOf_of_mem_found mem).1]
      exact this
    simpa using notThis

end Rule

/-- What several rules report about definitions of the type system. -/
theorem flatMap_filter_isNotExecutable_found (rules : List Rule) (schema : Schema)
    (doc : Document) :
    (rules.flatMap fun rule => (rule.found schema doc).filter Violation.isNotExecutable) =
      (rules.filter (· = .executableDefinitions)).flatMap fun _ => doc.notExecutables := by
  induction rules with
  | nil => rfl
  | cons rule rest ih =>
      rw [List.flatMap_cons, ih, Rule.filter_isNotExecutable_found]
      by_cases this : rule = .executableDefinitions
      · simp [this]
      · simp [this]

/-- **Definitions of the type system are inert apart from their own violations.**
Whatever the rules are, what a validator reports about a document is, but for
the violations that report definitions of the type system, what it reports about
the executable part of the document, in the same order.  The violations that are
left out here come from the rule about executable definitions alone: wherever it
stands in the list of rules, it adds one violation for each definition of the
type system, in the order of the document. -/
theorem filter_validate_eq_validate_executablePart (schema : Schema) (doc : Document)
    (rules before after : List Rule) (capacity : Nat) :
    ((Validator.ofConfig ⟨capacity, rules⟩).validate schema doc).1.filter
        (!·.isNotExecutable) =
      ((Validator.ofConfig ⟨capacity, rules⟩).validate schema doc.executablePart).1 ∧
    ((Validator.ofConfig ⟨capacity, rules⟩).validate schema doc).1.filter
        Violation.isNotExecutable =
      (rules.filter (· = .executableDefinitions)).flatMap (fun _ => doc.notExecutables) ∧
    ((Validator.ofConfig ⟨capacity, before ++ .executableDefinitions :: after⟩).validate
        schema doc).1 =
      ((Validator.ofConfig ⟨capacity, before⟩).validate schema doc).1 ++
        doc.notExecutables ++
        ((Validator.ofConfig ⟨capacity, after⟩).validate schema doc).1 := by
  simp only [Validator.validate_ofConfig]
  refine ⟨?_, ?_, ?_⟩
  · simp only [List.filter_flatMap, Rule.filter_not_isNotExecutable_found]
  · rw [List.filter_flatMap]
    exact flatMap_filter_isNotExecutable_found rules schema doc
  · rw [List.flatMap_append, List.flatMap_cons, Rule.found_executableDefinitions,
      List.append_assoc]

end GraphQLStatics
