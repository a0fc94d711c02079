import GraphQLStatics.Proofs.Findings

/-!
# Variables that are used and declared

What is found about the variables that an operation declares and uses depends
on two sets of names only: those declared, and those that occur in the
arguments within the operation's scope.

## Main Definitions

* `UsesVariable`: a variable occurs in some of the arguments
* `noteFirst`: names with the positions that they have first
* `OrderedMap.undeclared`: the used names that an operation does not declare
* `VariableFault`, `Violation.variableFault?`: what a violation says about a
  variable, without places

## Main Statements

* `Value.induction`: values by induction
* `contains_firstUses`: the names that are gathered from arguments
* `exists_unused`: the declared variables that are reported, each once
* `mem_variableFault?_useFindings`: which variables are reported
* `useFindings_eq_nil_iff`: when none is reported
-/

namespace GraphQLStatics

/-! ### Operations -/

/-- What is gathered from operations, definition by definition. -/
theorem Document.flatMap_operations {β : Type} (f : Operation → List β) (doc : Document) :
    doc.operations.flatMap f = doc.definitions.flatMap fun
      | .operation op => f op
      | .fragment _ => []
      | .typeSystem _ => [] := by
  unfold operations
  induction doc.definitions with
  | nil => rfl
  | cons definition rest ih =>
      rw [List.flatMap_cons, ← ih]
      cases definition <;> rfl

/-! ### Values -/

/-- Values by induction: a list or an object has a property if the values that it
holds have it. -/
theorem Value.induction {P : Value → Prop} (var : ∀ name, P (.var name))
    (list : ∀ items, (∀ item ∈ items, P item) → P (.list items))
    (object : ∀ fields, (∀ field ∈ fields, P field.2) → P (.object fields))
    (int : ∀ n, P (.int n)) (float : ∀ bits, P (.float bits)) (string : ∀ text, P (.string text))
    (boolean : ∀ b, P (.boolean b)) (null : P .null) (enum : ∀ name, P (.enum name))
    (value : Value) : P value := by
  refine @Value.rec P (fun items => ∀ item ∈ items, P item)
    (fun fields => ∀ field ∈ fields, P field.2) (fun field => P field.2)
    var int float string boolean null enum list object ?_ ?_ ?_ ?_ ?_ value
  · exact List.forall_mem_nil P
  · exact fun item rest here later => List.forall_mem_cons.mpr ⟨here, later⟩
  · exact List.forall_mem_nil fun field : String × Value => P field.2
  · exact fun field rest here later => List.forall_mem_cons.mpr ⟨here, later⟩
  · exact fun key value held => held

theorem itemOccurrences_eq_flatMap (schema : Schema) (target : Option InputPosition)
    (items : List Value) :
    itemOccurrences schema target items = items.flatMap (Value.occurrences schema target) := by
  induction items with
  | nil => rfl
  | cons item rest ih => rw [itemOccurrences, ih, List.flatMap_cons]

theorem fieldOccurrences_eq_flatMap (schema : Schema)
    (parameters : Option (OrderedMap Parameter)) (fields : List (String × Value)) :
    fieldOccurrences schema parameters fields = fields.flatMap fun field =>
      field.2.occurrences schema ((parameters.bind (·.find? field.1)).map Parameter.position) := by
  induction fields with
  | nil => rfl
  | cons field rest ih => rw [fieldOccurrences, ih, List.flatMap_cons]

/-! ### Names within arguments -/

/-- The variable `name` occurs in one of the arguments. -/
def UsesVariable (schema : Schema) (arguments : List ArgumentUse) (name : String) : Prop :=
  ∃ argument ∈ arguments, ∃ occurrence ∈ argument.value.occurrences schema none,
    occurrence.name = name

theorem usesVariable_congr (schema : Schema) {arguments arguments' : List ArgumentUse}
    (same : ∀ argument, argument ∈ arguments ↔ argument ∈ arguments') (name : String) :
    UsesVariable schema arguments name ↔ UsesVariable schema arguments' name := by
  simp only [UsesVariable, same]

namespace OrderedMap

variable {α : Type}

theorem contains_iff_exists_mem (m : OrderedMap α) (key : String) :
    m.contains key = true ↔ ∃ a, (key, a) ∈ m.entries := by
  rw [contains, find?, List.lookup_isSome_iff]
  constructor
  · rintro ⟨⟨other, a⟩, mem, same⟩
    have same : key = other := by simpa using same
    exact ⟨a, same ▸ mem⟩
  · rintro ⟨a, mem⟩
    exact ⟨(key, a), mem, by simp⟩

end OrderedMap

/-- Note a name with a position, unless it was noted before. -/
def noteFirst (used : OrderedMap Position) (use : String × Position) : OrderedMap Position :=
  if used.contains use.1 then used else used.insert use.1 use.2

/-- A name is noted with the position that it has first. -/
theorem find?_foldl_noteFirst (uses : List (String × Position)) (used : OrderedMap Position)
    (name : String) :
    (uses.foldl noteFirst used).find? name = (used.find? name).or (uses.lookup name) := by
  induction uses generalizing used with
  | nil => simp
  | cons use rest ih =>
      obtain ⟨other, position⟩ := use
      rw [List.foldl_cons, ih, noteFirst, List.lookup_cons]
      cases known : used.contains other with
      | true =>
          rw [if_pos rfl]
          by_cases same : name = other
          · subst same
            obtain ⟨first, isFirst⟩ := Option.isSome_iff_exists.mp known
            simp [isFirst]
          · simp [beq_false_of_ne same]
      | false =>
          rw [if_neg Bool.false_ne_true, OrderedMap.find?_insert]
          by_cases same : name = other
          · subst same
            have isNew : used.find? name = none := by
              simpa [OrderedMap.contains] using known
            simp [isNew]
          · simp [same, beq_false_of_ne same]

theorem contains_foldl_noteFirst (uses : List (String × Position)) (name : String) :
    (uses.foldl noteFirst .empty).contains name = true ↔
      ∃ position, (name, position) ∈ uses := by
  rw [OrderedMap.contains, find?_foldl_noteFirst, OrderedMap.find?_empty, Option.none_or,
    Option.isSome_iff_ne_none, ne_eq, lookup_eq_none_iff_notMem, not_not]
  simp

/-- Every name is gathered with the position of its first use. -/
theorem firstUses_eq (schema : Schema) (arguments : List ArgumentUse) :
    firstUses schema arguments =
      (arguments.flatMap fun argument =>
        (argument.value.occurrences schema none).map fun occurrence =>
          (occurrence.name, argument.position)).foldl noteFirst .empty := by
  simp only [List.foldl_flatMap, List.foldl_map]
  rfl

/-- The names that are gathered from arguments are those that occur in them. -/
theorem contains_firstUses (schema : Schema) (arguments : List ArgumentUse) (name : String) :
    (firstUses schema arguments).contains name = true ↔
      UsesVariable schema arguments name := by
  rw [firstUses_eq, contains_foldl_noteFirst, UsesVariable]
  simp only [List.mem_flatMap, List.mem_map, Prod.mk.injEq]
  constructor
  · rintro ⟨_, argument, isArgument, occurrence, occurs, sameName, -⟩
    exact ⟨argument, isArgument, occurrence, occurs, sameName⟩
  · rintro ⟨argument, isArgument, occurrence, occurs, sameName⟩
    exact ⟨argument.position, argument, isArgument, occurrence, occurs, sameName, rfl⟩

/-! ### What is reported -/

/-- What can be wrong with a variable that is declared or used. -/
inductive VariableFault where
  | undeclared (name : String)
  | unused (name : String)
  deriving DecidableEq, Repr

/-- The kind of a violation about a variable that is declared or used, with the
name of the variable. -/
def Violation.variableFault? : Violation → Option VariableFault
  | .variableNotDeclared _ name _ _ => some (.undeclared name)
  | .variableNotUsed _ name _ => some (.unused name)
  | _ => none

theorem Operation.declares_iff {op : Operation} {name : String} :
    op.declares name = true ↔ ∃ d ∈ op.declared, d.name = name := by
  simp [Operation.declares]

/-- The names that are used and not declared. -/
def OrderedMap.undeclared (used : OrderedMap Position) (op : Operation) :
    List (String × Position) :=
  used.entries.filter fun use => op.declares use.1 = false

namespace OrderedMap

/-- The names that are used and not declared are reported once each. -/
theorem flatMap_undeclaredFindings (used : OrderedMap Position) (doc : Document)
    (op : Operation) :
    used.entries.flatMap (undeclaredFindings doc op) =
      (used.undeclared op).map fun use =>
        .variableNotDeclared op.name use.1 (doc.place use.2) (doc.place op.position) := by
  refine flatMap_eq_map_filter (fun use => ?_) used.entries
  cases declared : op.declares use.1 <;> simp [undeclaredFindings, declared]

theorem nodup_undeclared (used : OrderedMap Position) (op : Operation) :
    ((used.undeclared op).map Prod.fst).Nodup :=
  used.nodup.sublist (List.filter_sublist.map Prod.fst)

theorem mem_undeclared (used : OrderedMap Position) (op : Operation) {name : String} :
    name ∈ (used.undeclared op).map Prod.fst ↔
      used.contains name = true ∧ op.declares name = false := by
  rw [contains_iff_exists_mem, undeclared]
  simp only [List.mem_map, List.mem_filter, decide_eq_true_eq, Prod.exists, exists_and_right,
    exists_eq_right]

end OrderedMap

/-- The names that are declared and not used are reported once each, at their
first declarations. -/
theorem exists_unused (doc : Document) (op : Operation) (used : OrderedMap Position)
    (earlier declared : List VariableDefinition) :
    ∃ unused : List VariableDefinition,
      withEarlier (unusedVariableFindings doc op used) earlier declared =
        unused.map (fun d => .variableNotUsed op.name d.name (doc.place d.position)) ∧
      (unused.map (·.name)).Nodup ∧
      ∀ d, d ∈ unused ↔ declared.find? (·.name = d.name) = some d ∧
        (∀ e ∈ earlier, e.name ≠ d.name) ∧ used.contains d.name = false := by
  induction declared generalizing earlier with
  | nil => exact ⟨[], rfl, List.nodup_nil, by simp⟩
  | cons first rest ih =>
      obtain ⟨unused, reported, nodup, mem_unused⟩ := ih (earlier ++ [first])
      -- Further declarations of the first name are not reported.
      have others : ∀ d, d ∈ unused ↔ (first :: rest).find? (·.name = d.name) = some d ∧
          (∀ e ∈ earlier, e.name ≠ d.name) ∧ used.contains d.name = false ∧
          first.name ≠ d.name := by
        intro d
        rw [mem_unused]
        by_cases same : first.name = d.name
        · simp [same]
        · simp [same, or_imp, forall_and]
      have atFirst : ∀ d, (first :: rest).find? (·.name = d.name) = some d ∧
          first.name = d.name → first = d := by
        rintro d ⟨found, same⟩
        rw [List.find?_cons_of_pos (by simpa using same)] at found
        exact Option.some.inj found
      rw [withEarlier, reported, unusedVariableFindings]
      by_cases report : used.contains first.name = false ∧
          ∀ e ∈ earlier, e.name ≠ first.name
      · obtain ⟨notUsed, isNew⟩ := report
        refine ⟨first :: unused, ?_, ?_, ?_⟩
        · rw [if_neg (by simpa [notUsed] using isNew)]
          rfl
        · refine List.nodup_cons.mpr ⟨?_, nodup⟩
          intro again
          obtain ⟨d, mem, same⟩ := List.mem_map.mp again
          exact ((others d).mp mem).2.2.2 same.symm
        · intro d
          rw [List.mem_cons, others]
          constructor
          · rintro (rfl | ⟨found, isNew', notUsed', -⟩)
            · exact ⟨by simp, isNew, notUsed⟩
            · exact ⟨found, isNew', notUsed'⟩
          · rintro ⟨found, isNew', notUsed'⟩
            by_cases same : first.name = d.name
            · exact Or.inl (atFirst d ⟨found, same⟩).symm
            · exact Or.inr ⟨found, isNew', notUsed', same⟩
      · refine ⟨unused, ?_, nodup, ?_⟩
        · rw [if_pos ?_, List.nil_append]
          by_contra notReported
          exact report (by simpa using notReported)
        · intro d
          rw [others]
          constructor
          · rintro ⟨found, isNew, notUsed, -⟩
            exact ⟨found, isNew, notUsed⟩
          · rintro ⟨found, isNew, notUsed⟩
            refine ⟨found, isNew, notUsed, ?_⟩
            intro same
            obtain rfl := atFirst d ⟨found, same⟩
            exact report ⟨notUsed, isNew⟩

/-- A name is reported as undeclared if it is used and not declared. -/
theorem mem_undeclaredFindings {doc : Document} {op : Operation}
    {used : OrderedMap Position} {fault : Option VariableFault} :
    (∃ v ∈ used.entries.flatMap (undeclaredFindings doc op), v.variableFault? = fault) ↔
      ∃ name, fault = some (.undeclared name) ∧ used.contains name = true ∧
        op.declares name = false := by
  simp only [used.flatMap_undeclaredFindings, ← used.mem_undeclared op, List.mem_map]
  constructor
  · rintro ⟨_, ⟨use, isReported, rfl⟩, rfl⟩
    exact ⟨use.1, rfl, use, isReported, rfl⟩
  · rintro ⟨_, rfl, use, isReported, rfl⟩
    exact ⟨_, ⟨use, isReported, rfl⟩, rfl⟩

/-- A name is reported as unused if it is declared, at its first declaration,
and not used. -/
theorem mem_unusedVariableFindings {doc : Document} {op : Operation}
    {used : OrderedMap Position} {fault : Option VariableFault} :
    (∃ v ∈ withEarlier (unusedVariableFindings doc op used) [] op.declared,
        v.variableFault? = fault) ↔
      ∃ name, fault = some (.unused name) ∧ op.declares name = true ∧
        used.contains name = false := by
  obtain ⟨unused, reported, -, mem_unused⟩ := exists_unused doc op used [] op.declared
  simp only [reported, List.mem_map]
  constructor
  · rintro ⟨_, ⟨d, isReported, rfl⟩, rfl⟩
    obtain ⟨found, -, notUsed⟩ := (mem_unused d).mp isReported
    exact ⟨d.name, rfl, Operation.declares_iff.mpr ⟨d, List.mem_of_find?_eq_some found, rfl⟩,
      notUsed⟩
  · rintro ⟨name, rfl, declared, notUsed⟩
    obtain ⟨d, found⟩ := Option.isSome_iff_exists.mp
      (List.find?_isSome.mpr (Operation.declares_iff.mp declared |>.imp fun d h =>
        ⟨h.1, decide_eq_true h.2⟩))
    obtain rfl : d.name = name := by simpa using List.find?_some found
    exact ⟨_, ⟨d, (mem_unused d).mpr ⟨found, by simp, notUsed⟩, rfl⟩, rfl⟩

/-- **Which variables are reported.**  A variable is reported as undeclared if
it occurs in the operation's scope and is not declared, and as unused if it is
declared and does not occur. -/
theorem mem_variableFault?_useFindings {schema : Schema} {doc : Document} {op : Operation}
    {fault : Option VariableFault} :
    fault ∈ (useFindings schema doc op).map Violation.variableFault? ↔
      (∃ name, fault = some (.undeclared name) ∧
        UsesVariable schema (scopeArguments schema doc op) name ∧ op.declares name = false) ∨
      (∃ name, fault = some (.unused name) ∧ op.declares name = true ∧
        ¬ UsesVariable schema (scopeArguments schema doc op) name) := by
  simp only [useFindings, List.map_append, List.mem_append, List.mem_map,
    mem_undeclaredFindings, mem_unusedVariableFindings, ← contains_firstUses,
    Bool.not_eq_true]

/-- Nothing is reported if the operation uses what it declares. -/
theorem useFindings_eq_nil_iff (schema : Schema) (doc : Document) (op : Operation) :
    useFindings schema doc op = [] ↔
      ∀ name, UsesVariable schema (scopeArguments schema doc op) name ↔
        op.declares name = true := by
  rw [← List.map_eq_nil_iff (f := Violation.variableFault?), List.eq_nil_iff_forall_not_mem]
  simp only [mem_variableFault?_useFindings, not_or, not_exists, not_and]
  constructor
  · intro none name
    constructor
    · intro uses
      have := (none _).1 name rfl uses
      simpa using this
    · intro declared
      have := (none _).2 name rfl declared
      simpa using this
  · intro same fault
    refine ⟨?_, ?_⟩
    · rintro name - uses
      simpa using (same name).mp uses
    · rintro name - declared
      simpa using (same name).mpr declared

end GraphQLStatics
