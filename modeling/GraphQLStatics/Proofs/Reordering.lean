import Mathlib.Data.List.Forall2
import GraphQLStatics.Proofs.FragmentVerdict
import GraphQLStatics.Proofs.PoolIsolation
import GraphQLStatics.Proofs.Positions

/-!
# Verdicts do not depend on order

The definitions of a document, and the selections of any selection set in it,
can be put in another order.  The violations that are found may then be others,
and where two fragments share a name another body may be looked at; but whether
there are any violations stays the same.

The argument goes through `Document.Counterparts`, which forgets the order: every
definition has a counterpart in the other document, with the same bare visits.
If names are unique, spreads find counterparts of the fragments that they found
before, so the graphs of spreads agree.  If names are not unique, both documents
are invalid.

## Main Definitions

* `SelectionSet.Reordered`, `Operation.Reordered`, `Fragment.Reordered`,
  `Definition.Reordered`, `Document.Reordered`: the same up to order and
  positions
* `Document.Counterparts`: what is left of that without order

## Main Statements

* `Document.Counterparts.found_eq_nil`: rules that find nothing in a document
  find nothing in its counterpart
* `isEmpty_validate_standard_of_reordered`: the verdict
-/

namespace GraphQLStatics

/-! ### Reordered selections -/

namespace SelectionSet

/-- The same selections up to their order, at any depth, and up to positions. -/
inductive Reordered : SelectionSet → SelectionSet → Prop
  | nil : Reordered .nil .nil
  | field {f f' : FieldUse} {sub sub' rest rest' : SelectionSet}
      (same : f.unplaced = f'.unplaced) (below : Reordered sub sub')
      (after : Reordered rest rest') :
      Reordered (.field f sub rest) (.field f' sub' rest')
  | spread {f f' : SpreadUse} {rest rest' : SelectionSet} (same : f.unplaced = f'.unplaced)
      (after : Reordered rest rest') : Reordered (.spread f rest) (.spread f' rest')
  | inline {f f' : InlineUse} {sub sub' rest rest' : SelectionSet}
      (same : f.unplaced = f'.unplaced) (below : Reordered sub sub')
      (after : Reordered rest rest') :
      Reordered (.inline f sub rest) (.inline f' sub' rest')
  | permute {selections selections' : List Selection} (perm : selections.Perm selections') :
      Reordered (.ofList selections) (.ofList selections')
  | trans {set middle set' : SelectionSet} (first : Reordered set middle)
      (second : Reordered middle set') : Reordered set set'

theorem Reordered.symm {set set' : SelectionSet} (reordered : set.Reordered set') :
    set'.Reordered set := by
  induction reordered with
  | nil => exact .nil
  | field same _ _ ihBelow ihAfter => exact .field same.symm ihBelow ihAfter
  | spread same _ ihAfter => exact .spread same.symm ihAfter
  | inline same _ _ ihBelow ihAfter => exact .inline same.symm ihBelow ihAfter
  | permute perm => exact .permute perm.symm
  | trans _ _ ihFirst ihSecond => exact .trans ihSecond ihFirst

/-- The visits of the first selection come before those of the others. -/
theorem walk_cons (schema : Schema) (head : Selection) (rest : SelectionSet)
    (scope : Option TypeDef) :
    (cons head rest).walk schema scope =
      (cons head .nil).walk schema scope ++ rest.walk schema scope := by
  cases head with
  | field f sub => simp [cons, walk]
  | spread f => simp [cons, walk]
  | inline f sub => simp [cons, walk]

/-- The visits of a set are those of each of its selections. -/
theorem walk_ofList (schema : Schema) (selections : List Selection) (scope : Option TypeDef) :
    (ofList selections).walk schema scope =
      selections.flatMap fun selection => (cons selection .nil).walk schema scope := by
  induction selections with
  | nil => rfl
  | cons head rest ih =>
      rw [List.flatMap_cons, ← ih]
      exact walk_cons schema head (ofList rest) scope

theorem spreadNames_cons (head : Selection) (rest : SelectionSet) :
    (cons head rest).spreadNames = (cons head .nil).spreadNames ++ rest.spreadNames := by
  cases head with
  | field f sub => simp [cons]
  | spread f => simp [cons]
  | inline f sub => simp [cons]

theorem spreadNames_ofList (selections : List Selection) :
    (ofList selections).spreadNames =
      selections.flatMap fun selection => (cons selection .nil).spreadNames := by
  induction selections with
  | nil => rfl
  | cons head rest ih =>
      rw [List.flatMap_cons, ← ih]
      exact spreadNames_cons head (ofList rest)

/-- Reordered selections have the same bare visits. -/
theorem Reordered.mem_bare_walk {set set' : SelectionSet} (reordered : set.Reordered set')
    (schema : Schema) (scope : Option TypeDef) (bare : Visit) :
    bare ∈ (set.walk schema scope).map Visit.bare ↔
      bare ∈ (set'.walk schema scope).map Visit.bare := by
  induction reordered generalizing scope with
  | nil => exact Iff.rfl
  | @field f f' sub sub' rest rest' same _ _ ihBelow ihAfter =>
      have sameVisit : Visit.bare ⟨.field f sub, scope⟩ = Visit.bare ⟨.field f' sub', scope⟩ := by
        simp only [Visit.bare, Selection.bare, same]
      have sameName : f.unplaced.name = f'.unplaced.name := by rw [same]
      have sameScope : schema.fieldScope scope f = schema.fieldScope scope f' := by
        change f.name = f'.name at sameName
        simp only [Schema.fieldScope, sameName]
      simp only [walk, List.map_cons, List.map_append, List.mem_cons, List.mem_append,
        sameVisit, sameScope, ihBelow, ihAfter]
  | @spread f f' rest rest' same _ ihAfter =>
      have sameVisit : Visit.bare ⟨.spread f, scope⟩ = Visit.bare ⟨.spread f', scope⟩ := by
        simp only [Visit.bare, Selection.bare, same]
      simp only [walk, List.map_cons, List.mem_cons, sameVisit, ihAfter]
  | @inline f f' sub sub' rest rest' same _ _ ihBelow ihAfter =>
      have sameVisit : Visit.bare ⟨.inline f sub, scope⟩ =
          Visit.bare ⟨.inline f' sub', scope⟩ := by
        simp only [Visit.bare, Selection.bare, same]
      have sameCondition : f.unplaced.condition = f'.unplaced.condition := by rw [same]
      have sameScope : schema.inlineScope scope f = schema.inlineScope scope f' := by
        change f.condition = f'.condition at sameCondition
        simp only [Schema.inlineScope, sameCondition]
      simp only [walk, List.map_cons, List.map_append, List.mem_cons, List.mem_append,
        sameVisit, sameScope, ihBelow, ihAfter]
  | permute perm =>
      simp only [walk_ofList, List.map_flatMap, List.mem_flatMap, perm.mem_iff]
  | trans _ _ ihFirst ihSecond => exact (ihFirst scope).trans (ihSecond scope)

/-- Reordered selections spread the same fragments. -/
theorem Reordered.mem_spreadNames {set set' : SelectionSet} (reordered : set.Reordered set')
    (name : String) : name ∈ set.spreadNames ↔ name ∈ set'.spreadNames := by
  induction reordered with
  | nil => exact Iff.rfl
  | field _ _ _ ihBelow ihAfter =>
      simp only [spreadNames_field, List.mem_append, ihBelow, ihAfter]
  | @spread f f' rest rest' same _ ihAfter =>
      have sameName : f.unplaced.fragment = f'.unplaced.fragment := by rw [same]
      change f.fragment = f'.fragment at sameName
      simp only [spreadNames_spread, List.mem_cons, sameName, ihAfter]
  | inline _ _ _ ihBelow ihAfter =>
      simp only [spreadNames_inline, List.mem_append, ihBelow, ihAfter]
  | permute perm =>
      simp only [spreadNames_ofList, List.mem_flatMap, perm.mem_iff]
  | trans _ _ ihFirst ihSecond => exact ihFirst.trans ihSecond

end SelectionSet

/-! ### Reordered documents -/

/-- The same operation up to the order of selections and up to positions. -/
structure Operation.Reordered (op op' : Operation) : Prop where
  kind : op.kind = op'.kind
  name : op.name = op'.name
  declared : op.declared.map VariableDefinition.unplaced =
    op'.declared.map VariableDefinition.unplaced
  directives : op.directives.map DirectiveUse.unplaced =
    op'.directives.map DirectiveUse.unplaced
  selections : op.selections.Reordered op'.selections

/-- The same fragment up to the order of selections and up to positions. -/
structure Fragment.Reordered (frag frag' : Fragment) : Prop where
  name : frag.name = frag'.name
  condition : frag.condition = frag'.condition
  directives : frag.directives.map DirectiveUse.unplaced =
    frag'.directives.map DirectiveUse.unplaced
  selections : frag.selections.Reordered frag'.selections

/-- The same definition up to the order of selections and up to positions.
Definitions of the type system have no selections, and no rule looks into
them. -/
inductive Definition.Reordered : Definition → Definition → Prop
  | operation {op op' : Operation} (same : op.Reordered op') :
      Reordered (.operation op) (.operation op')
  | fragment {frag frag' : Fragment} (same : frag.Reordered frag') :
      Reordered (.fragment frag) (.fragment frag')
  | typeSystem (definition definition' : TypeSystemDefinition) :
      Reordered (.typeSystem definition) (.typeSystem definition')

/-- The same document up to the order of definitions, the order of selections at
any depth, and positions. -/
def Document.Reordered (doc doc' : Document) : Prop :=
  ∃ middle : List Definition, doc.definitions.Perm middle ∧
    List.Forall₂ Definition.Reordered middle doc'.definitions

theorem Operation.Reordered.symm {op op' : Operation} (h : op.Reordered op') :
    op'.Reordered op :=
  ⟨h.kind.symm, h.name.symm, h.declared.symm, h.directives.symm, h.selections.symm⟩

theorem Fragment.Reordered.symm {frag frag' : Fragment} (h : frag.Reordered frag') :
    frag'.Reordered frag :=
  ⟨h.name.symm, h.condition.symm, h.directives.symm, h.selections.symm⟩

theorem Definition.Reordered.symm {x x' : Definition} (h : x.Reordered x') :
    x'.Reordered x := by
  cases h with
  | operation same => exact .operation same.symm
  | fragment same => exact .fragment same.symm
  | typeSystem definition definition' => exact .typeSystem definition' definition

namespace Document

theorem mem_operations {doc : Document} {op : Operation} :
    op ∈ doc.operations ↔ .operation op ∈ doc.definitions := by
  rw [operations, List.mem_filterMap]
  constructor
  · rintro ⟨definition, mem, isOp⟩
    cases definition with
    | operation other =>
        cases isOp
        exact mem
    | fragment frag => cases isOp
    | typeSystem t => cases isOp
  · intro mem
    exact ⟨.operation op, mem, rfl⟩

/-- Every definition of one document has a counterpart in the other, and the
fragments have the same names, counted with multiplicity. -/
structure Counterparts (doc doc' : Document) : Prop where
  forth : ∀ x ∈ doc.definitions, ∃ x' ∈ doc'.definitions, x.Reordered x'
  back : ∀ x' ∈ doc'.definitions, ∃ x ∈ doc.definitions, x'.Reordered x
  names : (doc.fragments.map (·.name)).Perm (doc'.fragments.map (·.name))

theorem Counterparts.symm {doc doc' : Document} (h : doc.Counterparts doc') :
    doc'.Counterparts doc :=
  ⟨h.back, h.forth, h.names.symm⟩

theorem exists_reordered_of_forall₂ {definitions definitions' : List Definition}
    (each : List.Forall₂ Definition.Reordered definitions definitions') :
    ∀ x ∈ definitions, ∃ x' ∈ definitions', x.Reordered x' := by
  induction each with
  | nil => simp
  | cons head _ ih =>
      rw [List.forall_mem_cons]
      refine ⟨⟨_, List.mem_cons_self, head⟩, ?_⟩
      intro x mem
      obtain ⟨x', mem', same⟩ := ih x mem
      exact ⟨x', List.mem_cons_of_mem _ mem', same⟩

theorem names_eq_of_forall₂ {definitions definitions' : List Definition}
    (each : List.Forall₂ Definition.Reordered definitions definitions') :
    (definitions.filterMap Definition.fragment?).map (·.name) =
      (definitions'.filterMap Definition.fragment?).map (·.name) := by
  induction each with
  | nil => rfl
  | cons head _ ih =>
      cases head with
      | operation same => exact ih
      | fragment same =>
          simp only [List.filterMap_cons, Definition.fragment?, List.map_cons, same.name]
          exact congrArg _ ih
      | typeSystem definition definition' => exact ih

/-- Reordered documents have counterparts of each other's definitions. -/
theorem Reordered.counterparts {doc doc' : Document} (reordered : doc.Reordered doc') :
    doc.Counterparts doc' := by
  obtain ⟨middle, perm, each⟩ := reordered
  refine ⟨?_, ?_, ?_⟩
  · intro x mem
    exact exists_reordered_of_forall₂ each x (perm.mem_iff.mp mem)
  · intro x' mem'
    have flipped : List.Forall₂ Definition.Reordered doc'.definitions middle :=
      each.flip.imp fun _ _ same => same.symm
    obtain ⟨x, mem, same⟩ := exists_reordered_of_forall₂ flipped x' mem'
    exact ⟨x, perm.mem_iff.mpr mem, same⟩
  · rw [fragments, fragments, ← names_eq_of_forall₂ each]
    exact (perm.filterMap _).map _

end Document

/-! ### What counterparts have in common -/

theorem Operation.Reordered.mem_bare_walk {op op' : Operation} (h : op.Reordered op')
    (schema : Schema) (bare : Visit) :
    bare ∈ (op.walk schema).map Visit.bare ↔ bare ∈ (op'.walk schema).map Visit.bare := by
  rw [Operation.walk, Operation.walk, ← h.kind]
  exact h.selections.mem_bare_walk schema _ bare

theorem Fragment.Reordered.mem_bare_walk {frag frag' : Fragment} (h : frag.Reordered frag')
    (schema : Schema) (bare : Visit) :
    bare ∈ (frag.walk schema).map Visit.bare ↔ bare ∈ (frag'.walk schema).map Visit.bare := by
  rw [Fragment.walk, Fragment.walk, Schema.fragmentScope, Schema.fragmentScope, ← h.condition]
  exact h.selections.mem_bare_walk schema _ bare

theorem Definition.Reordered.isExecutable_eq {x x' : Definition} (h : x.Reordered x') :
    x.isExecutable = x'.isExecutable := by
  cases h with
  | operation same => rfl
  | fragment same => rfl
  | typeSystem definition definition' => rfl

theorem Definition.Reordered.mem_unplaced_sites {x x' : Definition} (h : x.Reordered x')
    (schema : Schema) (site : DirectiveSite) :
    site ∈ x.directiveSites.map DirectiveSite.unplaced ↔
      site ∈ x'.directiveSites.map DirectiveSite.unplaced := by
  cases h with
  | operation same =>
      simp only [Definition.directiveSites, List.map_cons, List.mem_cons,
        mem_unplaced_directiveSites schema none, same.selections.mem_bare_walk schema,
        DirectiveSite.unplaced, same.kind, same.directives]
  | fragment same =>
      simp only [Definition.directiveSites, List.map_cons, List.mem_cons,
        mem_unplaced_directiveSites schema none, same.selections.mem_bare_walk schema,
        DirectiveSite.unplaced, same.directives]
  | typeSystem definition definition' => exact Iff.rfl

theorem Operation.Reordered.mem_unplaced_ownArguments {op op' : Operation}
    (h : op.Reordered op') (schema : Schema) (argument : ArgumentUse) :
    argument ∈ (op.ownArguments schema).map ArgumentUse.unplaced ↔
      argument ∈ (op'.ownArguments schema).map ArgumentUse.unplaced := by
  simp only [Operation.ownArguments, List.map_append, List.mem_append,
    ← directiveArguments_unplaced, mem_unplaced_arguments, h.directives, h.kind,
    h.selections.mem_bare_walk schema]

theorem Fragment.Reordered.mem_unplaced_ownArguments {frag frag' : Fragment}
    (h : frag.Reordered frag') (schema : Schema) (argument : ArgumentUse) :
    argument ∈ (frag.ownArguments schema).map ArgumentUse.unplaced ↔
      argument ∈ (frag'.ownArguments schema).map ArgumentUse.unplaced := by
  simp only [Fragment.ownArguments, List.map_append, List.mem_append,
    ← directiveArguments_unplaced, mem_unplaced_arguments, h.directives, Schema.fragmentScope,
    h.condition, h.selections.mem_bare_walk schema]

namespace Document.Counterparts

variable {doc doc' : Document}

theorem operation_back (h : doc.Counterparts doc') {op' : Operation}
    (mem : op' ∈ doc'.operations) : ∃ op ∈ doc.operations, op'.Reordered op := by
  obtain ⟨x, inDoc, same⟩ := h.back _ (mem_operations.mp mem)
  cases same with
  | operation same => exact ⟨_, mem_operations.mpr inDoc, same⟩

theorem fragment_back (h : doc.Counterparts doc') {frag' : Fragment}
    (mem : frag' ∈ doc'.fragments) : ∃ frag ∈ doc.fragments, frag'.Reordered frag := by
  obtain ⟨x, inDoc, same⟩ := h.back _ (mem_fragments.mp mem)
  cases same with
  | fragment same => exact ⟨_, mem_fragments.mpr inDoc, same⟩

theorem bare_walk_subset (h : doc.Counterparts doc') (schema : Schema) :
    (doc'.walk schema).map Visit.bare ⊆ (doc.walk schema).map Visit.bare := by
  intro bare mem
  simp only [Document.walk, List.map_append, List.map_flatMap, List.mem_append,
    List.mem_flatMap] at mem ⊢
  rcases mem with ⟨op', inDoc', mem⟩ | ⟨frag', inDoc', mem⟩
  · obtain ⟨op, inDoc, same⟩ := h.operation_back inDoc'
    exact Or.inl ⟨op, inDoc, (same.mem_bare_walk schema bare).mp mem⟩
  · obtain ⟨frag, inDoc, same⟩ := h.fragment_back inDoc'
    exact Or.inr ⟨frag, inDoc, (same.mem_bare_walk schema bare).mp mem⟩

theorem unplaced_sites_subset (h : doc.Counterparts doc') (schema : Schema) :
    doc'.directiveSites.map DirectiveSite.unplaced ⊆
      doc.directiveSites.map DirectiveSite.unplaced := by
  intro site mem
  simp only [Document.directiveSites, List.map_flatMap, List.mem_flatMap] at mem ⊢
  obtain ⟨x', inDoc', mem⟩ := mem
  obtain ⟨x, inDoc, same⟩ := h.back x' inDoc'
  exact ⟨x, inDoc, (same.mem_unplaced_sites schema site).mp mem⟩

/-! ### The graphs of spreads agree -/

/-- A spread that finds a fragment finds a counterpart of it in the other
document, if names are unique there. -/
theorem lookup_back (h : doc.Counterparts doc') (nodup : (doc.fragments.map (·.name)).Nodup)
    {name : String} {frag' : Fragment} (found : doc'.lastFragment? name = some frag') :
    ∃ frag, doc.lastFragment? name = some frag ∧ frag'.Reordered frag := by
  obtain ⟨mem, isName⟩ := mem_of_lastFragment? found
  obtain ⟨frag, inDoc, same⟩ := h.fragment_back mem
  exact ⟨frag, (lastFragment?_eq_some_iff_of_nodup nodup).mpr
    ⟨inDoc, same.name.symm.trans isName⟩, same⟩

theorem nodup_forth (h : doc.Counterparts doc') (nodup : (doc.fragments.map (·.name)).Nodup) :
    (doc'.fragments.map (·.name)).Nodup :=
  h.names.nodup_iff.mp nodup

theorem conditions_eq (h : doc.Counterparts doc')
    (nodup : (doc.fragments.map (·.name)).Nodup) (name : String) :
    (doc.lastFragment? name).map (·.condition) = (doc'.lastFragment? name).map (·.condition) := by
  cases found' : doc'.lastFragment? name with
  | none =>
      -- A definition here would have a counterpart there.
      cases found : doc.lastFragment? name with
      | none => rfl
      | some frag =>
          obtain ⟨frag', found'', -⟩ := h.symm.lookup_back (h.nodup_forth nodup) found
          rw [found'] at found''
          cases found''
  | some frag' =>
      obtain ⟨frag, found, same⟩ := h.lookup_back nodup found'
      rw [found, Option.map_some, Option.map_some, same.condition]

theorem leads_back (h : doc.Counterparts doc') (nodup : (doc.fragments.map (·.name)).Nodup)
    {a b : String} (edge : doc'.Leads a b) : doc.Leads a b := by
  obtain ⟨frag', found', mem⟩ := edge
  obtain ⟨frag, found, same⟩ := h.lookup_back nodup found'
  exact ⟨frag, found, (same.selections.mem_spreadNames b).mp mem⟩

theorem reaches_back (h : doc.Counterparts doc') (nodup : (doc.fragments.map (·.name)).Nodup)
    {set set' : SelectionSet} (same : set'.Reordered set) {name : String}
    (reaches : doc'.Reaches set' name) : doc.Reaches set name := by
  obtain ⟨first, mem, path⟩ := reaches
  exact ⟨first, (same.mem_spreadNames first).mp mem,
    Relation.ReflTransGen.mono (fun _ _ => h.leads_back nodup) _ _ path⟩

theorem acyclic_forth (h : doc.Counterparts doc')
    (nodup : (doc.fragments.map (·.name)).Nodup) (acyclic : doc.Acyclic) : doc'.Acyclic := by
  intro name cycle
  exact acyclic name (Relation.TransGen.mono (fun _ _ => h.leads_back nodup) _ _ cycle)

/-- Operations that are counterparts have the same arguments in their scopes. -/
theorem unplaced_scopeArguments_subset (h : doc.Counterparts doc')
    (nodup : (doc.fragments.map (·.name)).Nodup) (schema : Schema) {op op' : Operation}
    (same : op'.Reordered op) :
    (scopeArguments schema doc' op').map ArgumentUse.unplaced ⊆
      (scopeArguments schema doc op).map ArgumentUse.unplaced := by
  intro unplaced mem
  obtain ⟨argument', inScope, rfl⟩ := List.mem_map.mp mem
  rcases mem_scopeArguments.mp inScope with own | ⟨frag', ⟨reaches, found'⟩, own⟩
  · obtain ⟨argument, inOp, isSame⟩ := List.mem_map.mp
      ((same.mem_unplaced_ownArguments schema _).mp (List.mem_map_of_mem own))
    exact isSame ▸ List.mem_map_of_mem (mem_scopeArguments.mpr (Or.inl inOp))
  · obtain ⟨frag, found, sameFrag⟩ := h.lookup_back nodup found'
    obtain ⟨argument, inFrag, isSame⟩ := List.mem_map.mp
      ((sameFrag.mem_unplaced_ownArguments schema _).mp (List.mem_map_of_mem own))
    have reached : doc.ReachesFragment op.selections frag := by
      rw [sameFrag.name] at reaches found
      exact ⟨h.reaches_back nodup same.selections reaches, found⟩
    exact isSame ▸ List.mem_map_of_mem (mem_scopeArguments.mpr (Or.inr ⟨frag, reached, inFrag⟩))

/-! ### Verdicts -/

theorem usesVariable_back (h : doc.Counterparts doc')
    (nodup : (doc.fragments.map (·.name)).Nodup) (schema : Schema) {op op' : Operation}
    (same : op'.Reordered op) {name : String}
    (uses : UsesVariable schema (scopeArguments schema doc' op') name) :
    UsesVariable schema (scopeArguments schema doc op) name := by
  rw [← usesVariable_unplaced] at uses ⊢
  obtain ⟨argument, mem, occurs⟩ := uses
  exact ⟨argument, h.unplaced_scopeArguments_subset nodup schema same mem, occurs⟩

theorem fragmentFindings_forth (h : doc.Counterparts doc') {schema : Schema}
    (none : fragmentFindings schema doc = []) : fragmentFindings schema doc' = [] := by
  rw [fragmentFindings_eq_nil_iff] at none ⊢
  obtain ⟨nodup, conditions, selections, used, acyclic⟩ := none
  have nodup' := h.nodup_forth nodup
  refine ⟨nodup', ?_, ?_, ?_, h.acyclic_forth nodup acyclic⟩
  · intro frag' mem
    obtain ⟨frag, inDoc, same⟩ := h.fragment_back mem
    rw [same.condition]
    exact (conditionFindings_eq_nil_congr schema).mp (conditions frag inDoc)
  · intro visit' mem
    obtain ⟨visit, inDoc, same⟩ := List.mem_map.mp
      (h.bare_walk_subset schema (List.mem_map_of_mem mem))
    rw [← visitFragmentFindings_bare schema (fun _ => rfl) visit', ← same,
      visitFragmentFindings_bare schema (h.conditions_eq nodup) visit]
    exact selections visit inDoc
  · intro frag' mem
    -- The operation that reaches the fragment has a counterpart, which reaches it
    -- along the same names.
    obtain ⟨frag, inDoc, same⟩ := h.fragment_back mem
    obtain ⟨op, isOp, reaches⟩ := used frag inDoc
    obtain ⟨op', isOp', sameOp⟩ := h.symm.operation_back isOp
    rw [same.name]
    exact ⟨op', isOp', h.symm.reaches_back nodup' sameOp.selections reaches⟩

theorem useFindings_forth (h : doc.Counterparts doc')
    (nodup : (doc.fragments.map (·.name)).Nodup) {schema : Schema} {op op' : Operation}
    (same : op'.Reordered op) (none : useFindings schema doc op = []) :
    useFindings schema doc' op' = [] := by
  rw [useFindings_eq_nil_iff] at none ⊢
  intro name
  rw [Operation.declares_congr same.declared, ← none name]
  exact ⟨h.usesVariable_back nodup schema same,
    h.symm.usesVariable_back (h.nodup_forth nodup) schema same.symm⟩

theorem usageFindings_forth (h : doc.Counterparts doc')
    (nodup : (doc.fragments.map (·.name)).Nodup) {schema : Schema} {op op' : Operation}
    (same : op'.Reordered op) (none : usageFindings schema doc op = []) :
    usageFindings schema doc' op' = [] := by
  rw [usageFindings, List.flatMap_eq_nil_iff] at none ⊢
  intro argument' mem
  obtain ⟨argument, inScope, isSame⟩ := List.mem_map.mp
    (h.unplaced_scopeArguments_subset nodup schema same (List.mem_map_of_mem mem))
  rw [← violations_unplaced schema rfl doc' doc', ← isSame,
    violations_unplaced schema same.declared.symm doc doc']
  exact none argument inScope

/-- Rules that find nothing in a document find nothing in its counterpart. -/
theorem found_eq_nil (h : doc.Counterparts doc') {schema : Schema}
    (none : ∀ rule : Rule, rule.found schema doc = []) (rule : Rule) :
    rule.found schema doc' = [] := by
  -- Names are unique, since the rule about fragments finds nothing.
  have nodup := ((fragmentFindings_eq_nil_iff schema doc).mp (none .fragmentsAreValid)).1
  have here := none rule
  cases rule with
  | fragmentsAreValid => exact h.fragmentFindings_forth here
  | directivesAreValid =>
      rw [Rule.found, List.flatMap_eq_nil_iff] at here ⊢
      intro site' mem
      obtain ⟨site, inDoc, same⟩ := List.mem_map.mp
        (h.unplaced_sites_subset schema (List.mem_map_of_mem mem))
      rw [← siteFindings_unplaced schema doc' doc', ← same,
        siteFindings_unplaced schema doc doc']
      exact here site inDoc
  | executableDefinitions =>
      rw [Rule.found, List.flatMap_eq_nil_iff] at here ⊢
      intro x' mem
      obtain ⟨x, inDoc, same⟩ := h.back x' mem
      have executable := here x inDoc
      simp only [definitionFindings, ite_eq_left_iff] at executable ⊢
      simpa [same.isExecutable_eq] using executable
  | fieldMustBeDefined =>
      rw [Rule.found, List.flatMap_eq_nil_iff] at here ⊢
      intro visit' mem
      obtain ⟨visit, inDoc, same⟩ := List.mem_map.mp
        (h.bare_walk_subset schema (List.mem_map_of_mem mem))
      rw [← visitFieldFindings_bare schema doc' doc', ← same,
        visitFieldFindings_bare schema doc doc']
      exact here visit inDoc
  | allVariablesUsed =>
      rw [Rule.found, List.flatMap_eq_nil_iff] at here ⊢
      intro op' mem
      obtain ⟨op, inDoc, same⟩ := h.operation_back mem
      exact h.useFindings_forth nodup same (here op inDoc)
  | allVariableUsagesAreAllowed =>
      rw [Rule.found, List.flatMap_eq_nil_iff] at here ⊢
      intro op' mem
      obtain ⟨op, inDoc, same⟩ := h.operation_back mem
      exact h.usageFindings_forth nodup same (here op inDoc)
  | variableUniqueAndInputType =>
      rw [Rule.found, List.flatMap_eq_nil_iff] at here ⊢
      intro op' mem
      obtain ⟨op, inDoc, same⟩ := h.operation_back mem
      rw [← variableFindings_unplaced schema doc' doc' op' op', same.declared,
        variableFindings_unplaced schema doc doc' op op']
      exact here op inDoc

end Document.Counterparts

/-- The standard validator has every rule. -/
theorem isEmpty_validate_standard_iff (schema : Schema) (doc : Document) :
    (Validator.standard.validate schema doc).1.isEmpty = true ↔
      ∀ rule : Rule, rule.found schema doc = [] := by
  have every : ∀ rule : Rule, rule ∈ Rule.standard := by
    intro rule
    cases rule <;> decide
  rw [Validator.standard, Validator.validate_ofConfig, List.isEmpty_iff,
    List.flatMap_eq_nil_iff]
  exact ⟨fun none rule => none rule (every rule), fun none rule _ => none rule⟩

/-- **The verdict does not depend on order.**  If two documents differ by the
order of their definitions, by the order of selections in any of their
selection sets, and by positions, the standard validator finds either both of
them valid or both invalid. -/
theorem isEmpty_validate_standard_of_reordered (schema : Schema) {doc doc' : Document}
    (reordered : doc.Reordered doc') :
    (Validator.standard.validate schema doc).1.isEmpty =
      (Validator.standard.validate schema doc').1.isEmpty := by
  have counterparts := reordered.counterparts
  rw [Bool.eq_iff_iff, isEmpty_validate_standard_iff, isEmpty_validate_standard_iff]
  exact ⟨fun none => counterparts.found_eq_nil none,
    fun none => counterparts.symm.found_eq_nil none⟩

/-- A valid document stays valid when its fragment comes first and the selections
of its operation change places. -/
theorem isEmpty_validate_standard_of_reordered_swapped :
    let query : TypeDef := .defined "Query" ⟨none, ⟨1, 1⟩⟩ (.object [] .empty)
    let schema : Schema := ⟨.ofList [("Query", query)], .empty, "Query", none, none⟩
    let doc : Document := ⟨[.operation ⟨⟨1, 1⟩, .query, none, [], [],
        .spread ⟨⟨1, 3⟩, "F", []⟩ (.field ⟨⟨1, 8⟩, none, "__typename", [], []⟩ .nil .nil)⟩,
      .fragment ⟨⟨2, 1⟩, "F", "Query", [],
        .field ⟨⟨2, 21⟩, none, "__typename", [], []⟩ .nil .nil⟩], none⟩
    let doc' : Document := ⟨[.fragment ⟨⟨1, 1⟩, "F", "Query", [],
        .field ⟨⟨1, 21⟩, none, "__typename", [], []⟩ .nil .nil⟩,
      .operation ⟨⟨2, 1⟩, .query, none, [], [],
        .field ⟨⟨2, 3⟩, none, "__typename", [], []⟩ .nil (.spread ⟨⟨2, 14⟩, "F", []⟩ .nil)⟩],
      none⟩
    doc.Reordered doc' ∧ (Validator.standard.validate schema doc').1.isEmpty = true := by
  intro query schema doc doc'
  have reordered : doc.Reordered doc' := by
    refine ⟨_, List.Perm.swap _ _ [], ?_⟩
    refine .cons (.fragment ⟨rfl, rfl, rfl, .field rfl .nil .nil⟩) (.cons (.operation ?_) .nil)
    have swapped := SelectionSet.Reordered.permute (List.Perm.swap
      (.field ⟨⟨1, 8⟩, none, "__typename", [], []⟩ .nil) (.spread ⟨⟨1, 3⟩, "F", []⟩) [])
    exact ⟨rfl, rfl, rfl, rfl, swapped.trans (.field rfl .nil (.spread rfl .nil))⟩
  have valid : (Validator.standard.validate schema doc).1.isEmpty = true := by decide
  exact ⟨reordered, (isEmpty_validate_standard_of_reordered schema reordered).symm.trans valid⟩

end GraphQLStatics
