import Mathlib.Data.Set.Finite.List
import Mathlib.Data.Fintype.Card
import GraphQLStatics.Proofs.CycleReports
import GraphQLStatics.Proofs.PoolIsolation
import GraphQLStatics.Proofs.VariableUses

/-!
# Fragments and inline fragments

A spread stands for the selections of a fragment.  Where spreads form no cycle
and every spread has a definition, all of them can be replaced by inline
fragments, and what is left is an operation that needs no other definition.
The rules about variables and fields see no difference: they find in that
operation what they find in the original operation and in the fragments that
it reaches.

A rule of this kind gathers something at every selection.  `Collects` says
what it must not depend on, and `mem_collect_iff_of_inlines` is the induction
over the replaced selections, done once for all such rules.

## Main Definitions

* `Document.Inlines`: replace spreads at any depth
* `Operation.alone`: the document with a single operation
* `Operation.useReport`, `Operation.usageReport`, `fieldReport`: what is
  reported about a part of a document
* `Collects`: what is gathered at selections

## Main Statements

* `Document.exists_inlines`, `Document.Inlines.unique`: spreads can be replaced
  in one way
* `validate_inlined_iff`: the rules find the same
-/

namespace GraphQLStatics

/-! ### Replacing spreads -/

/-- The inline fragment that a spread of the fragment stands for. -/
def SpreadUse.inlined (f : SpreadUse) (frag : Fragment) : InlineUse where
  position := f.position
  condition := some frag.condition
  directives := f.directives ++ frag.directives

namespace Document

/-- The second set is the first one with every spread, at any depth, replaced
by an inline fragment.  The selections of the inline fragment are those of the
last fragment with the spread's name, in which spreads are replaced as well. -/
inductive Inlines (doc : Document) : SelectionSet → SelectionSet → Prop
  | nil : Inlines doc .nil .nil
  | field (f : FieldUse) {sub sub' rest rest' : SelectionSet} (below : Inlines doc sub sub')
      (after : Inlines doc rest rest') :
      Inlines doc (.field f sub rest) (.field f sub' rest')
  | spread (f : SpreadUse) {frag : Fragment} {body rest rest' : SelectionSet}
      (found : doc.lastFragment? f.fragment = some frag)
      (below : Inlines doc frag.selections body) (after : Inlines doc rest rest') :
      Inlines doc (.spread f rest) (.inline (f.inlined frag) body rest')
  | inline (f : InlineUse) {sub sub' rest rest' : SelectionSet} (below : Inlines doc sub sub')
      (after : Inlines doc rest rest') :
      Inlines doc (.inline f sub rest) (.inline f sub' rest')

/-- Spreads can be replaced in one way only. -/
theorem Inlines.unique {doc : Document} {set body other : SelectionSet}
    (inlines : doc.Inlines set body) (inlines' : doc.Inlines set other) : other = body := by
  induction inlines generalizing other with
  | nil =>
      cases inlines'
      rfl
  | field f below after ihBelow ihAfter =>
      cases inlines' with
      | field _ below' after' => rw [ihBelow below', ihAfter after']
  | spread f found below after ihBelow ihAfter =>
      cases inlines' with
      | spread _ found' below' after' =>
          rw [found] at found'
          cases found'
          rw [ihBelow below', ihAfter after']
  | inline f below after ihBelow ihAfter =>
      cases inlines' with
      | inline _ below' after' => rw [ihBelow below', ihAfter after']

/-! ### Replacing comes to an end -/

/-- No path along spreads goes on for ever from a name. -/
def Ends (doc : Document) (name : String) : Prop :=
  Acc (fun b a => doc.Leads a b) name

/-- What is reached is spread somewhere. -/
theorem Reaches.mem_spreadNames {doc : Document} {set : SelectionSet} {name : String}
    (reaches : doc.Reaches set name) :
    name ∈ set.spreadNames ++ doc.fragments.flatMap (·.selections.spreadNames) := by
  obtain ⟨first, mem, path⟩ := reaches
  cases path with
  | refl => exact List.mem_append_left _ mem
  | tail _ edge =>
      obtain ⟨frag, found, mem⟩ := edge
      exact List.mem_append_right _
        (List.mem_flatMap.mpr ⟨frag, (mem_of_lastFragment? found).1, mem⟩)

/-- Without cycles among the names that are reached, every path from one of
them comes to an end, since these names are finitely many. -/
theorem ends_of_reaches {doc : Document} {set : SelectionSet}
    (acyclic : ∀ name, doc.Reaches set name → ¬ Relation.TransGen doc.Leads name name)
    {name : String} (reaches : doc.Reaches set name) : doc.Ends name := by
  have finite : Finite {name // doc.Reaches set name} :=
    ((List.finite_toSet _).subset fun _ => Reaches.mem_spreadNames).to_subtype
  let Below : {name // doc.Reaches set name} → {name // doc.Reaches set name} → Prop :=
    fun b a => Relation.TransGen doc.Leads a b
  have trans : IsTrans _ Below := ⟨fun _ _ _ lower upper => upper.trans lower⟩
  have irrefl : Std.Irrefl Below := ⟨fun a cycle => acyclic a a.2 cycle⟩
  have wellFounded := Finite.wellFounded_of_trans_of_irrefl Below
  refine wellFounded.induction (C := fun a => doc.Ends a.1) ⟨name, reaches⟩ ?_
  intro a ih
  refine Acc.intro a.1 ?_
  intro b edge
  exact ih ⟨b, a.2.tail edge⟩ (Relation.TransGen.single edge)

/-- Spreads can be replaced in a set if they can be replaced in the fragments
that it spreads. -/
theorem exists_inlines_of_spreads (doc : Document) (set : SelectionSet)
    (each : ∀ name ∈ set.spreadNames, ∃ frag body,
      doc.lastFragment? name = some frag ∧ doc.Inlines frag.selections body) :
    ∃ body, doc.Inlines set body := by
  induction set with
  | nil => exact ⟨.nil, .nil⟩
  | field f sub rest ihSub ihRest =>
      rw [SelectionSet.spreadNames_field, List.forall_mem_append] at each
      obtain ⟨sub', below⟩ := ihSub each.1
      obtain ⟨rest', after⟩ := ihRest each.2
      exact ⟨_, .field f below after⟩
  | spread f rest ihRest =>
      rw [SelectionSet.spreadNames_spread, List.forall_mem_cons] at each
      obtain ⟨⟨frag, body, found, below⟩, later⟩ := each
      obtain ⟨rest', after⟩ := ihRest later
      exact ⟨_, .spread f found below after⟩
  | inline f sub rest ihSub ihRest =>
      rw [SelectionSet.spreadNames_inline, List.forall_mem_append] at each
      obtain ⟨sub', below⟩ := ihSub each.1
      obtain ⟨rest', after⟩ := ihRest each.2
      exact ⟨_, .inline f below after⟩

/-- **Replacing terminates** if spreads form no cycle and have definitions. -/
theorem exists_inlines {doc : Document} {set : SelectionSet}
    (acyclic : ∀ name, doc.Reaches set name → ¬ Relation.TransGen doc.Leads name name)
    (defined : ∀ name, doc.Reaches set name → (doc.lastFragment? name).isSome) :
    ∃ body, doc.Inlines set body := by
  have ofReached : ∀ name, doc.Ends name → doc.Reaches set name → ∃ frag body,
      doc.lastFragment? name = some frag ∧ doc.Inlines frag.selections body := by
    intro name ends
    induction ends with
    | intro a _ ih =>
        intro reaches
        obtain ⟨frag, found⟩ := Option.isSome_iff_exists.mp (defined a reaches)
        obtain ⟨body, inlines⟩ := exists_inlines_of_spreads doc frag.selections (by
          intro b mem
          have edge := (leads_iff_of_defined found).mpr mem
          exact ih b edge (reaches.tail edge))
        exact ⟨frag, body, found, inlines⟩
  refine exists_inlines_of_spreads doc set ?_
  intro name mem
  have reaches : doc.Reaches set name := ⟨name, mem, .refl⟩
  exact ofReached name (ends_of_reaches acyclic reaches) reaches

end Document

/-! ### What is gathered at selections -/

/-- What `collect` gathers at a selection does not depend on the selections
below it, and at an inline fragment that replaces a spread it gathers what it
gathers at the spread and what `extra` gives for the fragment. -/
structure Collects {β : Type} (collect : Visit → List β) (extra : Fragment → List β) :
    Prop where
  field : ∀ (f : FieldUse) (sub sub' : SelectionSet) (scope : Option TypeDef),
    collect ⟨.field f sub, scope⟩ = collect ⟨.field f sub', scope⟩
  inline : ∀ (f : InlineUse) (sub sub' : SelectionSet) (scope : Option TypeDef),
    collect ⟨.inline f sub, scope⟩ = collect ⟨.inline f sub', scope⟩
  spread : ∀ (f : SpreadUse) (frag : Fragment) (body : SelectionSet) (scope : Option TypeDef),
    collect ⟨.inline (f.inlined frag) body, scope⟩ = collect ⟨.spread f, scope⟩ ++ extra frag

/-- From replaced selections the same is gathered as from the original ones and
from the fragments that they reach. -/
theorem mem_collect_iff_of_inlines {β : Type} {collect : Visit → List β}
    {extra : Fragment → List β} (collects : Collects collect extra) (schema : Schema)
    {doc : Document} {set body : SelectionSet} (inlines : doc.Inlines set body)
    (scope : Option TypeDef) (b : β) :
    b ∈ (body.walk schema scope).flatMap collect ↔
      b ∈ (set.walk schema scope).flatMap collect ∨
        ∃ frag, doc.ReachesFragment set frag ∧
          b ∈ extra frag ++ (frag.walk schema).flatMap collect := by
  induction inlines generalizing scope with
  | nil => simp [SelectionSet.walk, Document.ReachesFragment, Document.Reaches]
  | @field f sub sub' rest rest' below after ihBelow ihAfter =>
      simp only [SelectionSet.walk, List.flatMap_cons, List.flatMap_append, List.mem_append,
        ihBelow, ihAfter, Document.reachesFragment_field, or_and_right, exists_or,
        collects.field f sub' sub]
      simp only [or_assoc, or_comm, or_left_comm]
  | @spread f frag body rest rest' found below after ihBelow ihAfter =>
      -- Below the inline fragment the selections are made on the fragment's type.
      have sameScope : ∀ scope, schema.inlineScope scope (f.inlined frag) =
          schema.fragmentScope frag := fun _ => rfl
      simp only [SelectionSet.walk, List.flatMap_cons, List.flatMap_append, List.mem_append,
        ihBelow, ihAfter, Document.reachesFragment_spread found, or_and_right, exists_or,
        exists_eq_left, collects.spread, sameScope, Fragment.walk]
      simp only [or_assoc, or_comm, or_left_comm]
  | @inline f sub sub' rest rest' below after ihBelow ihAfter =>
      simp only [SelectionSet.walk, List.flatMap_cons, List.flatMap_append, List.mem_append,
        ihBelow, ihAfter, Document.reachesFragment_inline, or_and_right, exists_or,
        collects.inline f sub' sub]
      simp only [or_assoc, or_comm, or_left_comm]

theorem collects_arguments (schema : Schema) :
    Collects (Visit.arguments schema) fun frag => directiveArguments schema frag.directives where
  field _ _ _ _ := rfl
  inline _ _ _ _ := rfl
  spread _ _ _ _ := List.flatMap_append

theorem collects_visitFieldFindings (schema : Schema) (doc : Document) :
    Collects (visitFieldFindings schema doc) fun _ => [] where
  field _ _ _ scope := by cases scope <;> rfl
  inline _ _ _ _ := rfl
  spread _ _ _ _ := rfl

/-! ### Reports about a part of a document -/

/-- What is reported about the variables that an operation of the document
declares and uses. -/
def Operation.useReport (schema : Schema) (doc : Document) (op : Operation) : List Violation :=
  (checkOperationUses schema doc (Workspace.fresh.bindTo doc) op).violations

/-- What is reported about the variables of an operation of the document where
they are used. -/
def Operation.usageReport (schema : Schema) (doc : Document) (op : Operation) :
    List Violation :=
  (checkOperationUsages schema doc (Workspace.fresh.bindTo doc) op).violations

/-- What is reported about the fields among some selections of the document. -/
def fieldReport (schema : Schema) (doc : Document) (visits : List Visit) : List Violation :=
  (visits.foldl (checkField schema doc) (Workspace.fresh.bindTo doc)).violations

theorem Operation.useReport_eq (schema : Schema) (doc : Document) (op : Operation) :
    op.useReport schema doc = useFindings schema doc op :=
  (checkOperationUses_gains schema _ op (Workspace.boundTo_bindTo _ doc)).violations

theorem Operation.usageReport_eq (schema : Schema) (doc : Document) (op : Operation) :
    op.usageReport schema doc = usageFindings schema doc op :=
  (checkOperationUsages_gains schema _ op (Workspace.boundTo_bindTo _ doc)).violations

theorem fieldReport_eq (schema : Schema) (doc : Document) (visits : List Visit) :
    fieldReport schema doc visits = visits.flatMap (visitFieldFindings schema doc) :=
  (foldl_checkField_gains schema visits (Workspace.boundTo_bindTo _ doc)).violations

/-- The reports about the operations of a document make up what the rule
reports. -/
theorem validate_allVariablesUsed (capacity : Nat) (schema : Schema) (doc : Document) :
    ((Validator.ofConfig ⟨capacity, [.allVariablesUsed]⟩).validate schema doc).1 =
      doc.operations.flatMap (Operation.useReport schema doc) := by
  rw [Validator.validate_single, funext (Operation.useReport_eq schema doc)]
  rfl

theorem validate_allVariableUsagesAreAllowed (capacity : Nat) (schema : Schema)
    (doc : Document) :
    ((Validator.ofConfig ⟨capacity, [.allVariableUsagesAreAllowed]⟩).validate schema doc).1 =
      doc.operations.flatMap (Operation.usageReport schema doc) := by
  rw [Validator.validate_single, funext (Operation.usageReport_eq schema doc)]
  rfl

theorem validate_fieldMustBeDefined (capacity : Nat) (schema : Schema) (doc : Document) :
    ((Validator.ofConfig ⟨capacity, [.fieldMustBeDefined]⟩).validate schema doc).1 =
      fieldReport schema doc (doc.walk schema) := by
  rw [Validator.validate_single, fieldReport_eq]
  rfl

/-! ### Operations without fragments -/

/-- The document that consists of an operation. -/
def Operation.alone (op : Operation) (file : Option String) : Document where
  definitions := [.operation op]
  file := file

theorem Operation.flatMap_operations_alone {β : Type} (op : Operation) (file : Option String)
    (f : Operation → List β) : (op.alone file).operations.flatMap f = f op :=
  List.flatMap_singleton f op

theorem Operation.walk_alone (schema : Schema) (op : Operation) (file : Option String) :
    (op.alone file).walk schema = op.walk schema := by
  rw [Document.walk, Operation.flatMap_operations_alone]
  exact List.append_nil _

theorem Operation.not_reachesFragment_alone (op : Operation) (file : Option String)
    (set : SelectionSet) (frag : Fragment) : ¬ (op.alone file).ReachesFragment set frag := by
  rintro ⟨-, found⟩
  cases (Document.mem_of_lastFragment? found).1

/-! ### The rules see no difference -/

section

variable (schema : Schema) {doc : Document} {op : Operation} {body : SelectionSet}

/-- In the scope of the operation with replaced spreads are the arguments that
are in the scope of the original operation. -/
theorem mem_scopeArguments_iff_of_inlines (inlines : doc.Inlines op.selections body)
    (argument : ArgumentUse) :
    argument ∈ scopeArguments schema (Operation.alone { op with selections := body } doc.file)
        { op with selections := body } ↔
      argument ∈ scopeArguments schema doc op := by
  have gathered := mem_collect_iff_of_inlines (collects_arguments schema) schema inlines
    (schema.root? op.kind) argument
  simp only [mem_scopeArguments, Operation.not_reachesFragment_alone, false_and, exists_false,
    or_false, Operation.ownArguments, Fragment.ownArguments, SelectionSet.arguments,
    List.mem_append, Fragment.walk] at gathered ⊢
  rw [gathered, or_assoc]

theorem mem_useReport_iff_of_inlines (inlines : doc.Inlines op.selections body)
    (fault : Option VariableFault) :
    fault ∈ (Operation.useReport schema
        (Operation.alone { op with selections := body } doc.file)
        { op with selections := body }).map Violation.variableFault? ↔
      fault ∈ (op.useReport schema doc).map Violation.variableFault? := by
  have sameUses := usesVariable_congr schema (mem_scopeArguments_iff_of_inlines schema inlines)
  rw [Operation.useReport_eq, Operation.useReport_eq, mem_variableFault?_useFindings,
    mem_variableFault?_useFindings]
  simp only [sameUses]
  -- Both operations declare the same variables.
  rfl

theorem mem_usageReport_iff_of_inlines (inlines : doc.Inlines op.selections body)
    (v : Violation) :
    v ∈ Operation.usageReport schema (Operation.alone { op with selections := body } doc.file)
        { op with selections := body } ↔
      v ∈ op.usageReport schema doc := by
  rw [Operation.usageReport_eq, Operation.usageReport_eq, usageFindings, usageFindings,
    List.mem_flatMap, List.mem_flatMap]
  simp only [mem_scopeArguments_iff_of_inlines schema inlines]
  -- What is wrong with an argument depends on the declared variables and the file.
  rfl

theorem mem_fieldReport_iff_of_inlines (inlines : doc.Inlines op.selections body)
    (v : Violation) :
    v ∈ fieldReport schema (Operation.alone { op with selections := body } doc.file)
        (Operation.walk schema { op with selections := body }) ↔
      v ∈ fieldReport schema doc (op.walk schema) ∨
        ∃ frag, doc.ReachesFragment op.selections frag ∧
          v ∈ fieldReport schema doc (frag.walk schema) := by
  simp only [fieldReport_eq]
  exact mem_collect_iff_of_inlines (collects_visitFieldFindings schema doc) schema inlines
    (schema.root? op.kind) v

end

/-- **Inlining fragments changes no finding.**  Let spreads form no cycle and
have definitions, as far as they are reached from an operation.  Then all of
them can be replaced by inline fragments, in one way.  For the operation with
its spreads replaced, as a document of its own, it is reported that the same
variables are undeclared or unused as in the original operation; the same
variables do not fit at the same places; and the same fields are wrong as in
the original operation and the fragments that it reaches. -/
theorem validate_inlined_iff (schema : Schema) (doc : Document) (op : Operation)
    (capacity : Nat)
    (acyclic : ∀ name, doc.Reaches op.selections name →
      ¬ Relation.TransGen doc.Leads name name)
    (defined : ∀ name, doc.Reaches op.selections name → (doc.lastFragment? name).isSome) :
    ∃ body, doc.Inlines op.selections body ∧
      (∀ other, doc.Inlines op.selections other → other = body) ∧
      let reported := fun rule => ((Validator.ofConfig ⟨capacity, [rule]⟩).validate schema
        (Operation.alone { op with selections := body } doc.file)).1
      (∀ fault, fault ∈ (reported .allVariablesUsed).map Violation.variableFault? ↔
        fault ∈ (op.useReport schema doc).map Violation.variableFault?) ∧
      (∀ v, v ∈ reported .allVariableUsagesAreAllowed ↔ v ∈ op.usageReport schema doc) ∧
      ∀ v, v ∈ reported .fieldMustBeDefined ↔
        v ∈ fieldReport schema doc (op.walk schema) ∨
          ∃ frag, doc.ReachesFragment op.selections frag ∧
            v ∈ fieldReport schema doc (frag.walk schema) := by
  obtain ⟨body, inlines⟩ := Document.exists_inlines acyclic defined
  refine ⟨body, inlines, fun other => inlines.unique, ?_⟩
  simp only [validate_allVariablesUsed, validate_allVariableUsagesAreAllowed,
    validate_fieldMustBeDefined, Operation.flatMap_operations_alone, Operation.walk_alone]
  exact ⟨mem_useReport_iff_of_inlines schema inlines,
    mem_usageReport_iff_of_inlines schema inlines,
    mem_fieldReport_iff_of_inlines schema inlines⟩

/-- An operation that declares `$a` and spreads a fragment. -/
def nestedOperation : Operation :=
  ⟨⟨1, 1⟩, .query, none, [⟨⟨1, 8⟩, "a", .named "Int", none⟩], [],
    .spread ⟨⟨1, 20⟩, "Outer", []⟩ .nil⟩

/-- The fragment that `nestedOperation` spreads has an unknown field, and spreads
another one that uses `$b`. -/
def nestedSpreads : Document where
  definitions :=
    [.operation nestedOperation,
     .fragment ⟨⟨2, 1⟩, "Outer", "Query", [],
      .field ⟨⟨2, 29⟩, none, "unknown", [], []⟩ .nil (.spread ⟨⟨2, 37⟩, "Inner", []⟩ .nil)⟩,
     .fragment ⟨⟨3, 1⟩, "Inner", "Query", [],
      .field ⟨⟨3, 29⟩, none, "__typename", [("x", .var "b")], []⟩ .nil .nil⟩]
  file := some "nested.graphql"

/-- What is wrong within the two fragments of `nestedSpreads` is reported about
the operation with its spreads replaced. -/
theorem validate_inlined_iff_nested :
    let query : TypeDef := .defined "Query" ⟨none, ⟨1, 1⟩⟩ (.object [] .empty)
    let schema : Schema := ⟨.ofList [("Query", query)], .empty, "Query", none, none⟩
    (∀ name, nestedSpreads.Reaches nestedOperation.selections name →
      ¬ Relation.TransGen nestedSpreads.Leads name name) ∧
    (∀ name, nestedSpreads.Reaches nestedOperation.selections name →
      (nestedSpreads.lastFragment? name).isSome) ∧
    ∃ body, nestedSpreads.Inlines nestedOperation.selections body ∧
      let reported := fun rule => ((Validator.ofConfig ⟨0, [rule]⟩).validate schema
        (Operation.alone { nestedOperation with selections := body } nestedSpreads.file)).1
      some (.undeclared "b") ∈ (reported .allVariablesUsed).map Violation.variableFault? ∧
      some (.unused "a") ∈ (reported .allVariablesUsed).map Violation.variableFault? ∧
      .fieldDoesNotExist "unknown" "Query" ⟨some "nested.graphql", ⟨2, 29⟩⟩ ∈
        reported .fieldMustBeDefined := by
  intro query schema
  have acyclic : nestedSpreads.Acyclic := by decide
  have defined : ∀ name, nestedSpreads.Reaches nestedOperation.selections name →
      (nestedSpreads.lastFragment? name).isSome := by
    have marked : ∀ name ∈ (reachable nestedSpreads nestedOperation.selections
        (Workspace.fresh.bindTo nestedSpreads).clearVisited).2.visited,
          (nestedSpreads.lastFragment? name).isSome := by decide
    simpa only [mem_visited_reachable_clearVisited _
      (Workspace.boundTo_bindTo Workspace.fresh nestedSpreads)] using marked
  obtain ⟨body, inlines, -, used, -, fields⟩ := validate_inlined_iff schema nestedSpreads
    nestedOperation 0 (fun name _ => acyclic name) defined
  refine ⟨fun name _ => acyclic name, defined, body, inlines, (used _).mpr ?_, (used _).mpr ?_,
    (fields _).mpr (Or.inr ?_)⟩
  · decide
  · decide
  · simp only [← Document.mem_reached]
    decide

end GraphQLStatics
