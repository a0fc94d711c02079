import GraphQLStatics.Proofs.Nesting
import GraphQLStatics.Proofs.PoolIsolation
import GraphQLStatics.Proofs.VariableUses

/-!
# Variables by name

Which variables an operation uses can be read off the document: a variable is
used if it stands somewhere within an argument of the operation, or of a fragment
that the operation reaches.  The rule about declared and used variables gathers
names along with the positions that they flow into, and for that it asks the
schema about every field and directive.  None of the answers matters.

## Main Definitions

* `Value.Mentions`, `Operation.Uses`: the variables that are used
* `Operation.uses`: the names of variables in the order in which they are met

## Main Statements

* `firstUses_scopeArguments`: names are gathered without the schema
* `Operation.mem_uses`: the names that are gathered are those that are used
* `validate_reports_variables_by_name`: which variables are reported
-/

namespace GraphQLStatics

/-! ### Variables within values -/

/-- The variable stands somewhere within the value. -/
inductive Value.Mentions (name : String) : Value → Prop
  | var : Mentions name (.var name)
  | item {items : List Value} {item : Value} (mem : item ∈ items) (within : item.Mentions name) :
      Mentions name (.list items)
  | field {fields : List (String × Value)} {key : String} {value : Value}
      (mem : (key, value) ∈ fields) (within : value.Mentions name) : Mentions name (.object fields)

mutual

/-- The variables within a value, from left to right. -/
def Value.variableNames : Value → List String
  | .var name => [name]
  | .list items => itemVariableNames items
  | .object fields => fieldVariableNames fields
  | .int _ | .float _ | .string _ | .boolean _ | .null | .enum _ => []

/-- The variables within the items of a list. -/
def itemVariableNames : List Value → List String
  | [] => []
  | item :: rest => item.variableNames ++ itemVariableNames rest

/-- The variables within the fields of an object. -/
def fieldVariableNames : List (String × Value) → List String
  | [] => []
  | (_, value) :: rest => value.variableNames ++ fieldVariableNames rest

end

theorem itemVariableNames_eq_flatMap (items : List Value) :
    itemVariableNames items = items.flatMap Value.variableNames := by
  induction items with
  | nil => rfl
  | cons item rest ih => rw [itemVariableNames, ih, List.flatMap_cons]

theorem fieldVariableNames_eq_flatMap (fields : List (String × Value)) :
    fieldVariableNames fields = fields.flatMap fun field => field.2.variableNames := by
  induction fields with
  | nil => rfl
  | cons field rest ih => rw [fieldVariableNames, ih, List.flatMap_cons]

namespace Value

/-- The names of variables do not depend on what the schema says about them. -/
theorem occurrences_map_name (schema : Schema) (target : Option InputPosition) (value : Value) :
    (value.occurrences schema target).map (·.name) = value.variableNames := by
  induction value using Value.induction generalizing target with
  | var name => rfl
  | list items ih =>
      rw [occurrences, variableNames, itemOccurrences_eq_flatMap, itemVariableNames_eq_flatMap,
        List.map_flatMap]
      exact List.flatMap_congr fun item mem => ih item mem _
  | object fields ih =>
      rw [occurrences, variableNames, fieldOccurrences_eq_flatMap, fieldVariableNames_eq_flatMap,
        List.map_flatMap]
      exact List.flatMap_congr fun field mem => ih field mem _
  | int n | float bits | string text | boolean b | null | enum name => rfl

theorem mem_variableNames {name : String} {value : Value} :
    name ∈ value.variableNames ↔ value.Mentions name := by
  constructor
  · intro mem
    induction value using Value.induction with
    | var other => exact List.mem_singleton.mp mem ▸ .var
    | list items ih =>
        rw [variableNames, itemVariableNames_eq_flatMap] at mem
        obtain ⟨item, isItem, within⟩ := List.mem_flatMap.mp mem
        exact .item isItem (ih item isItem within)
    | object fields ih =>
        rw [variableNames, fieldVariableNames_eq_flatMap] at mem
        obtain ⟨field, isField, within⟩ := List.mem_flatMap.mp mem
        exact .field isField (ih field isField within)
    | int n | float bits | string text | boolean b | null | enum other => cases mem
  · intro mentions
    induction mentions with
    | var => exact List.mem_singleton_self name
    | item isItem _ ih =>
        rw [variableNames, itemVariableNames_eq_flatMap]
        exact List.mem_flatMap.mpr ⟨_, isItem, ih⟩
    | field isField _ ih =>
        rw [variableNames, fieldVariableNames_eq_flatMap]
        exact List.mem_flatMap.mpr ⟨_, isField, ih⟩

end Value

/-! ### Arguments in the scope of an operation -/

/-- The arguments of a definition with the given directives and selections. -/
def writtenIn (ds : List DirectiveUse) (set : SelectionSet) : List (Position × Value) :=
  writtenInDirectives ds ++ set.preorder.flatMap Selection.written

/-- The arguments in the scope of an operation. -/
def Operation.written (doc : Document) (op : Operation) : List (Position × Value) :=
  writtenIn op.directives op.selections ++
    (doc.reached op.selections).flatMap fun frag => writtenIn frag.directives frag.selections

theorem scopeArguments_map_written (schema : Schema) (doc : Document) (op : Operation) :
    (scopeArguments schema doc op).map ArgumentUse.written = op.written doc := by
  have inDefinition : ∀ (ds : List DirectiveUse) (set : SelectionSet) (scope : Option TypeDef),
      (directiveArguments schema ds ++ set.arguments schema scope).map ArgumentUse.written =
        writtenIn ds set := by
    intro ds set scope
    rw [List.map_append, directiveArguments_map_written, set.arguments_map_written]
    rfl
  rw [scopeArguments, List.map_append, List.map_flatMap, Operation.written,
    Operation.ownArguments, inDefinition]
  congr 1
  exact List.flatMap_congr fun frag _ => inDefinition frag.directives frag.selections _

/-! ### Names in the order in which they are met -/

/-- The variables within some arguments, each with the position of the element
that has the argument. -/
def usesWithin (written : List (Position × Value)) : List (String × Position) :=
  written.flatMap fun argument => argument.2.variableNames.map fun name => (name, argument.1)

/-- The variables in the scope of an operation. -/
def Operation.uses (doc : Document) (op : Operation) : List (String × Position) :=
  usesWithin (op.written doc)

/-- **Names are gathered without the schema.** -/
theorem firstUses_scopeArguments (schema : Schema) (doc : Document) (op : Operation) :
    firstUses schema (scopeArguments schema doc op) = (op.uses doc).foldl noteFirst .empty := by
  have atArgument : ∀ argument : ArgumentUse,
      ((argument.value.occurrences schema none).map fun occurrence =>
          (occurrence.name, argument.position)) =
        argument.written.2.variableNames.map fun name => (name, argument.written.1) := by
    intro argument
    rw [ArgumentUse.written, ← argument.value.occurrences_map_name schema none, List.map_map]
    rfl
  rw [firstUses_eq, Operation.uses, usesWithin, ← scopeArguments_map_written schema,
    List.flatMap_map, funext atArgument]

/-! ### Variables that are used -/

/-- The variable stands within an argument of the directive, which is at the
position. -/
def DirectiveUse.Uses (d : DirectiveUse) (name : String) (position : Position) : Prop :=
  d.position = position ∧ ∃ argument ∈ d.arguments, argument.2.Mentions name

/-- The variable stands within an argument of the selection or of one of its
directives, and the position is that of the field or the directive. -/
inductive Selection.Uses (name : String) (position : Position) : Selection → Prop
  | argument {f : FieldUse} {sub : SelectionSet} {argument : String × Value}
      (atField : f.position = position) (mem : argument ∈ f.arguments)
      (mentions : argument.2.Mentions name) : Uses name position (.field f sub)
  | directive {s : Selection} {d : DirectiveUse} (mem : d ∈ s.directives)
      (uses : d.Uses name position) : Uses name position s

/-- The variable is used by one of the directives, or at some address of the
selection set. -/
def UsedWithin (ds : List DirectiveUse) (set : SelectionSet) (name : String)
    (position : Position) : Prop :=
  (∃ d ∈ ds, d.Uses name position) ∨
    ∃ path s, set.at? path = some s ∧ s.Uses name position

/-- The variable is used by the operation itself, or by the last definition of a
fragment that the operation reaches. -/
def Operation.Uses (doc : Document) (op : Operation) (name : String) (position : Position) :
    Prop :=
  UsedWithin op.directives op.selections name position ∨
    ∃ frag, doc.SpreadsTo op.selections frag.name ∧
      doc.lastFragment? frag.name = some frag ∧
      UsedWithin frag.directives frag.selections name position

theorem mem_usesWithin {written : List (Position × Value)} {name : String}
    {position : Position} :
    (name, position) ∈ usesWithin written ↔
      ∃ value, (position, value) ∈ written ∧ value.Mentions name := by
  simp only [usesWithin, List.mem_flatMap, List.mem_map, Prod.exists, Prod.mk.injEq,
    Value.mem_variableNames]
  constructor
  · rintro ⟨_, value, mem, _, mentions, rfl, rfl⟩
    exact ⟨value, mem, mentions⟩
  · rintro ⟨value, mem, mentions⟩
    exact ⟨position, value, mem, name, mentions, rfl, rfl⟩

theorem mem_usesWithin_append {written more : List (Position × Value)}
    {use : String × Position} :
    use ∈ usesWithin (written ++ more) ↔ use ∈ usesWithin written ∨ use ∈ usesWithin more := by
  rw [usesWithin, List.flatMap_append, List.mem_append]
  rfl

theorem mem_usesWithin_flatMap {α : Type} {l : List α} {written : α → List (Position × Value)}
    {use : String × Position} :
    use ∈ usesWithin (l.flatMap written) ↔ ∃ a ∈ l, use ∈ usesWithin (written a) := by
  rw [usesWithin, List.flatMap_assoc, List.mem_flatMap]
  rfl

theorem mem_usesWithin_writtenArguments {at_ position : Position}
    {arguments : List (String × Value)} {name : String} :
    (name, position) ∈ usesWithin (writtenArguments at_ arguments) ↔
      at_ = position ∧ ∃ argument ∈ arguments, argument.2.Mentions name := by
  rw [mem_usesWithin, writtenArguments]
  constructor
  · rintro ⟨value, mem, mentions⟩
    obtain ⟨argument, isArgument, same⟩ := List.mem_map.mp mem
    obtain ⟨rfl, rfl⟩ := Prod.mk.inj same
    exact ⟨rfl, argument, isArgument, mentions⟩
  · rintro ⟨rfl, argument, isArgument, mentions⟩
    exact ⟨argument.2, List.mem_map.mpr ⟨argument, isArgument, rfl⟩, mentions⟩

theorem mem_usesWithin_directives {ds : List DirectiveUse} {name : String}
    {position : Position} :
    (name, position) ∈ usesWithin (writtenInDirectives ds) ↔ ∃ d ∈ ds, d.Uses name position := by
  simp only [writtenInDirectives, mem_usesWithin_flatMap, mem_usesWithin_writtenArguments,
    DirectiveUse.Uses]

theorem Selection.mem_usesWithin_written {s : Selection} {name : String}
    {position : Position} :
    (name, position) ∈ usesWithin s.written ↔ s.Uses name position := by
  constructor
  · intro mem
    cases s with
    | field f sub =>
        rcases mem_usesWithin_append.mp mem with own | inDirectives
        · obtain ⟨atField, argument, isArgument, mentions⟩ :=
            mem_usesWithin_writtenArguments.mp own
          exact .argument atField isArgument mentions
        · obtain ⟨d, isDirective, uses⟩ := mem_usesWithin_directives.mp inDirectives
          exact .directive isDirective uses
    | spread f =>
        obtain ⟨d, isDirective, uses⟩ := mem_usesWithin_directives.mp mem
        exact .directive isDirective uses
    | inline f sub =>
        obtain ⟨d, isDirective, uses⟩ := mem_usesWithin_directives.mp mem
        exact .directive isDirective uses
  · intro uses
    cases uses with
    | argument atField isArgument mentions =>
        exact mem_usesWithin_append.mpr (Or.inl
          (mem_usesWithin_writtenArguments.mpr ⟨atField, _, isArgument, mentions⟩))
    | @directive _ d isDirective uses =>
        have inDirectives := mem_usesWithin_directives.mpr ⟨d, isDirective, uses⟩
        cases s with
        | field f sub => exact mem_usesWithin_append.mpr (Or.inr inDirectives)
        | spread f => exact inDirectives
        | inline f sub => exact inDirectives

theorem mem_usesWithin_writtenIn {ds : List DirectiveUse} {set : SelectionSet} {name : String}
    {position : Position} :
    (name, position) ∈ usesWithin (writtenIn ds set) ↔ UsedWithin ds set name position := by
  rw [writtenIn, mem_usesWithin_append, mem_usesWithin_directives, mem_usesWithin_flatMap,
    UsedWithin]
  simp only [Selection.mem_usesWithin_written, set.enumerates_preorder.mem_iff]
  rw [exists_comm]
  simp only [exists_and_right]

/-- **The names that are gathered are those that are used.** -/
theorem Operation.mem_uses {doc : Document} {op : Operation} {name : String}
    {position : Position} : (name, position) ∈ op.uses doc ↔ op.Uses doc name position := by
  rw [Operation.uses, Operation.written, mem_usesWithin_append, mem_usesWithin_writtenIn,
    mem_usesWithin_flatMap, Operation.Uses]
  simp only [mem_usesWithin_writtenIn, Document.mem_reached, Document.ReachesFragment,
    Document.spreadsTo_iff_reaches, and_assoc]

/-! ### What is reported -/

/-- Names are noted with the position of a use. -/
theorem entries_foldl_noteFirst_subset (uses : List (String × Position)) :
    (uses.foldl noteFirst .empty).entries ⊆ uses := by
  rintro ⟨name, position⟩ mem
  rw [← OrderedMap.find?_eq_some_iff, find?_foldl_noteFirst, OrderedMap.find?_empty,
    Option.none_or] at mem
  obtain ⟨front, back, split, -⟩ := List.lookup_eq_some_iff.mp mem
  simp [split]

/-- **Variables are reported by name.**  What a validator with the rule about
declared and used variables reports is the same for all schemas.  For each
operation in turn it reports the names that are used and not declared, once each
and with the position of a use, and then the names that are declared and not
used, once each and at their first declarations. -/
theorem validate_reports_variables_by_name (capacity : Nat) (doc : Document) :
    ∃ report : Operation → List Violation,
      (∀ schema, ((Validator.ofConfig ⟨capacity, [.allVariablesUsed]⟩).validate schema doc).1 =
        doc.definitions.flatMap fun
          | .operation op => report op
          | .fragment _ => []
          | .typeSystem _ => []) ∧
      ∀ op, ∃ (undeclared : List (String × Position)) (unused : List VariableDefinition),
        report op =
          undeclared.map (fun use =>
            .variableNotDeclared op.name use.1 (doc.place use.2) (doc.place op.position)) ++
          unused.map (fun d => .variableNotUsed op.name d.name (doc.place d.position)) ∧
        (undeclared.map Prod.fst).Nodup ∧
        (∀ use ∈ undeclared, op.Uses doc use.1 use.2) ∧
        (∀ name, name ∈ undeclared.map Prod.fst ↔
          (∃ position, op.Uses doc name position) ∧ ∀ d ∈ op.declared, d.name ≠ name) ∧
        (unused.map (·.name)).Nodup ∧
        ∀ d, d ∈ unused ↔ op.declared.find? (·.name = d.name) = some d ∧
          ¬ ∃ position, op.Uses doc d.name position := by
  refine ⟨fun op => (((op.uses doc).foldl noteFirst .empty).entries.flatMap
      (undeclaredFindings doc op)) ++
    withEarlier (unusedVariableFindings doc op ((op.uses doc).foldl noteFirst .empty)) []
      op.declared, ?_, ?_⟩
  · intro schema
    rw [Validator.validate_single]
    refine Eq.trans ?_ (doc.flatMap_operations _)
    refine List.flatMap_congr fun op _ => ?_
    rw [useFindings, firstUses_scopeArguments]
  · intro op
    dsimp only
    have known := contains_foldl_noteFirst (op.uses doc)
    have noted := entries_foldl_noteFirst_subset (op.uses doc)
    generalize (op.uses doc).foldl noteFirst .empty = used at known noted ⊢
    obtain ⟨unused, reported, nodup, mem_unused⟩ := exists_unused doc op used [] op.declared
    refine ⟨used.undeclared op, unused,
      congrArg₂ _ (used.flatMap_undeclaredFindings doc op) reported,
      used.nodup_undeclared op, ?_, ?_, nodup, ?_⟩
    · rintro ⟨name, position⟩ mem
      exact Operation.mem_uses.mp (noted (List.mem_filter.mp mem).1)
    · intro name
      rw [used.mem_undeclared op, known, ← Bool.not_eq_true, Operation.declares_iff]
      simp only [Operation.mem_uses, not_exists, not_and, ne_eq]
    · intro d
      rw [mem_unused, ← Bool.not_eq_true, known]
      simp [Operation.mem_uses]

end GraphQLStatics
