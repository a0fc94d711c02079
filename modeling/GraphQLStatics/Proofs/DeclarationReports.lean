import Mathlib.Data.Finset.Card
import GraphQLStatics.Proofs.Enumeration
import GraphQLStatics.Proofs.PoolIsolation

/-!
# What is reported about declared variables

An operation declares variables, each with a name and a type.  The name must not be
that of a variable declared before in the same operation, and the type at the core of
the written type, within all lists and non-null layers, must be an input type.

The names met before are scratch of the workspace, which all rules share and which is
cleared for each operation.  So an operation is reported as if it stood alone, in
whatever state the workspace is.

## Main Definitions

* `TypeExpr.core`: the type name within a written type
* `DeclarationPart`: the name or the type of a variable
* `Document.DeclarationFault`: what is wrong with the name or the type of a variable

## Main Statements

* `EnumeratesIn.withEarlier`: what is found in view of earlier elements
* `Document.reportsIn_declarationFault`: which declarations are reported
* `countP_repeatsVariable_declared`: how many names are reported as repeated
* `validate_reports_variable_declarations`: what is reported, operation by operation
-/

namespace GraphQLStatics

/-! ### The core of a type -/

/-- The type name within all lists and non-null layers. -/
def TypeExpr.core : TypeExpr → String
  | .named name => name
  | .list item => item.core
  | .nonNull inner => inner.core

theorem TypeRef.innermostName_ofExprWith (nullable : Bool) (expr : TypeExpr) :
    (ofExprWith nullable expr).innermostName = expr.core := by
  induction expr generalizing nullable with
  | named name => rfl
  | list item ih => exact ih true
  | nonNull inner ih => exact ih false

/-- No variable can have the type with a name: it is not defined, or it is an output
type. -/
inductive Schema.NotInput (schema : Schema) (name : String) : Prop
  | undefined (isType : schema.type? name = none)
  | output {t : TypeDef} (isType : schema.type? name = some t)
      (kind : t.kind = .object ∨ t.kind = .interface ∨ t.kind = .union)

theorem TypeKind.isInput_eq_false_iff (kind : TypeKind) :
    kind.isInput = false ↔ kind = .object ∨ kind = .interface ∨ kind = .union := by
  cases kind <;> decide

theorem Schema.hasInputType_eq_false_iff {schema : Schema} {name : String} :
    schema.hasInputType name = false ↔ schema.NotInput name := by
  unfold hasInputType
  constructor
  · intro noInput
    cases isType : schema.type? name with
    | none => exact .undefined isType
    | some t =>
        rw [isType] at noInput
        exact .output isType ((TypeKind.isInput_eq_false_iff t.kind).mp noInput)
  · rintro (isType | ⟨isType, kind⟩)
    · rw [isType]
      rfl
    · rw [isType]
      exact (TypeKind.isInput_eq_false_iff _).mpr kind

/-! ### In view of earlier elements -/

/-- The earlier elements are those up to an index. -/
theorem withEarlier_eq_flatMap {α β : Type} (result : List α → α → List β) (earlier l : List α) :
    withEarlier result earlier l =
      (l.zipIdx earlier.length).flatMap fun p => result ((earlier ++ l).take p.2) p.1 := by
  induction l generalizing earlier with
  | nil => rfl
  | cons x rest ih =>
      rw [withEarlier, List.zipIdx_cons, List.flatMap_cons, ih, List.take_left,
        List.length_append, List.append_assoc]
      rfl

/-- What is found at an element in view of the earlier ones. -/
theorem EnumeratesIn.withEarlier {α β γ : Type} {before : α → α → Prop}
    {inner? : List β → β → α → Option γ} {result : List β → β → List γ}
    (each : ∀ earlier x, EnumeratesIn before (inner? earlier x) (result earlier x))
    (l : List β) :
    EnumeratesIn (Prod.Lex (· < ·) before)
      (fun p : Nat × α => (l[p.1]?).bind fun x => inner? (l.take p.1) x p.2)
      (withEarlier result [] l) := by
  have found := (EnumeratesIn.getElem? l.zipIdx).bind
    fun p _ => each (l.take p.2) p.1
  have atIndex : (fun p : Nat × α => (l[p.1]?).bind fun x => inner? (l.take p.1) x p.2) =
      fun p => (l.zipIdx[p.1]?).bind fun q => inner? (l.take q.2) q.1 p.2 := by
    funext p
    rw [List.getElem?_zipIdx, Nat.zero_add]
    cases l[p.1]? <;> rfl
  rw [withEarlier_eq_flatMap, atIndex]
  exact found

/-! ### Faults of declarations -/

/-- The parts of a declaration, in the order in which they are looked at. -/
inductive DeclarationPart where
  | name
  | type
  deriving DecidableEq, Repr

/-- The name of a variable comes before its type. -/
inductive DeclarationPart.Before : DeclarationPart → DeclarationPart → Prop
  | nameFirst : Before .name .type

/-- An operation by its index among the definitions, a variable of it by its index, and a
part of the variable's declaration come in lexicographic order. -/
abbrev DeclarationPart.BeforeInDocument :
    Nat × Nat × DeclarationPart → Nat × Nat × DeclarationPart → Prop :=
  Prod.Lex (· < ·) (Prod.Lex (· < ·) Before)

theorem DeclarationPart.BeforeInDocument.irrefl (p : Nat × Nat × DeclarationPart) :
    ¬ BeforeInDocument p p := by
  rintro (⟨_, _, less⟩ | ⟨_, ⟨_, _, less⟩ | ⟨_, isBefore⟩⟩)
  · exact Nat.lt_irrefl _ less
  · exact Nat.lt_irrefl _ less
  · cases isBefore

/-- The violation reports the name of a variable that occurs before in the same operation,
or a type with which no variable can be declared. -/
inductive Document.DeclarationFault (schema : Schema) (doc : Document) :
    Nat × Nat × DeclarationPart → Violation → Prop
  | repeated {i j k : Nat} {op : Operation} {v earlier : VariableDefinition}
      (isOperation : doc.definitions[i]? = some (.operation op))
      (isDeclared : op.declared[j]? = some v) (less : k < j)
      (isEarlier : op.declared[k]? = some earlier) (same : earlier.name = v.name) :
      DeclarationFault schema doc (i, j, .name)
        (.variableNameNotUnique op.name v.name (doc.place v.position))
  | notInput {i j : Nat} {op : Operation} {v : VariableDefinition}
      (isOperation : doc.definitions[i]? = some (.operation op))
      (isDeclared : op.declared[j]? = some v) (notInput : schema.NotInput v.type.core) :
      DeclarationFault schema doc (i, j, .type)
        (.variableNotInput v.name v.type.core (doc.place v.position))

/-- What is reported about a part of a declaration, in view of earlier ones. -/
def declarationFinding? (schema : Schema) (doc : Document) (op : Operation)
    (earlier : List VariableDefinition) (v : VariableDefinition) :
    DeclarationPart → Option Violation
  | .name =>
    if earlier.any (·.name = v.name) then
      some (.variableNameNotUnique op.name v.name (doc.place v.position))
    else none
  | .type =>
    if schema.hasInputType v.type.core then none
    else some (.variableNotInput v.name v.type.core (doc.place v.position))

theorem enumeratesIn_variableFindings (schema : Schema) (doc : Document) (op : Operation)
    (earlier : List VariableDefinition) (v : VariableDefinition) :
    EnumeratesIn DeclarationPart.Before (declarationFinding? schema doc op earlier v)
      (variableFindings schema doc op earlier v) := by
  have parts : EnumeratesIn DeclarationPart.Before some [DeclarationPart.name, .type] := by
    refine ⟨[.name, .type], ?_, rfl, ?_⟩
    · exact List.pairwise_pair.mpr .nameFirst
    · rintro (_ | _) -
      · exact List.mem_cons_self
      · exact List.mem_cons_of_mem _ (List.mem_singleton_self _)
  have found := parts.filterMap (declarationFinding? schema doc op earlier v)
  have listed : [DeclarationPart.name, .type].filterMap
      (declarationFinding? schema doc op earlier v) = variableFindings schema doc op earlier v := by
    rw [variableFindings, TypeRef.ofExpr, TypeRef.innermostName_ofExprWith]
    unfold declarationFinding?
    cases earlier.any (·.name = v.name) <;> cases schema.hasInputType v.type.core <;> rfl
  rwa [listed] at found

/-- A name occurs before an index. -/
theorem any_name_take_iff {declared : List VariableDefinition} {j : Nat} {name : String} :
    (declared.take j).any (·.name = name) = true ↔
      ∃ k < j, ∃ earlier, declared[k]? = some earlier ∧ earlier.name = name := by
  rw [List.any_eq_true]
  constructor
  · rintro ⟨earlier, mem, same⟩
    obtain ⟨k, isEarlier⟩ := List.mem_iff_getElem?.mp mem
    rw [List.getElem?_take] at isEarlier
    split at isEarlier
    · next less => exact ⟨k, less, earlier, isEarlier, of_decide_eq_true same⟩
    · cases isEarlier
  · rintro ⟨k, less, earlier, isEarlier, same⟩
    refine ⟨earlier, List.mem_iff_getElem?.mpr ⟨k, ?_⟩, decide_eq_true same⟩
    rw [List.getElem?_take, if_pos less, isEarlier]

theorem Document.declarationFault_iff {schema : Schema} {doc : Document}
    {p : Nat × Nat × DeclarationPart} {violation : Violation} :
    ((doc.definitions[p.1]?).bind Definition.operation?).bind (fun op =>
        (op.declared[p.2.1]?).bind fun v =>
          declarationFinding? schema doc op (op.declared.take p.2.1) v p.2.2) =
        some violation ↔
      doc.DeclarationFault schema p violation := by
  constructor
  · intro found
    obtain ⟨i, j, part⟩ := p
    obtain ⟨op, isOperation, found⟩ := Option.bind_eq_some_iff.mp found
    obtain ⟨definition, isDefinition, isOperation⟩ := Option.bind_eq_some_iff.mp isOperation
    obtain ⟨v, isDeclared, found⟩ := Option.bind_eq_some_iff.mp found
    cases definition with
    | fragment _ | typeSystem _ => cases isOperation
    | operation op =>
        cases isOperation
        cases part with
        | name =>
            rw [declarationFinding?] at found
            split at found
            · next occurs =>
                cases found
                obtain ⟨k, less, earlier, isEarlier, same⟩ := any_name_take_iff.mp occurs
                exact .repeated isDefinition isDeclared less isEarlier same
            · cases found
        | type =>
            rw [declarationFinding?] at found
            split at found
            · cases found
            · next noInput =>
                cases found
                exact .notInput isDefinition isDeclared
                  (Schema.hasInputType_eq_false_iff.mp (Bool.not_eq_true _ ▸ noInput))
  · intro fault
    cases fault with
    | repeated isOperation isDeclared less isEarlier same =>
        have occurs := any_name_take_iff.mpr ⟨_, less, _, isEarlier, same⟩
        simp only [isOperation, isDeclared, Option.bind_some, Definition.operation?,
          declarationFinding?, occurs, if_true]
    | notInput isOperation isDeclared notInput =>
        have noInput := Schema.hasInputType_eq_false_iff.mpr notInput
        simp [isOperation, isDeclared, Definition.operation?, declarationFinding?, noInput]

/-- **Declarations are reported** part by part, in the order of the document. -/
theorem Document.reportsIn_declarationFault (schema : Schema) (doc : Document) :
    ReportsIn DeclarationPart.BeforeInDocument (doc.DeclarationFault schema)
      (Rule.variableUniqueAndInputType.found schema doc) := by
  have operations := (EnumeratesIn.getElem? doc.definitions).filterMap Definition.operation?
  have found := operations.bind fun op _ =>
    EnumeratesIn.withEarlier (enumeratesIn_variableFindings schema doc op) op.declared
  exact (found.reportsIn DeclarationPart.BeforeInDocument.irrefl).congr fun p violation =>
    declarationFault_iff

/-! ### Repeated names -/

/-- The violation reports that the name of a variable is not unique. -/
def Violation.repeatsVariable : Violation → Bool
  | .variableNameNotUnique _ _ _ => true
  | _ => false

theorem countP_repeatsVariable_variableFindings (schema : Schema) (doc : Document)
    (op : Operation) (earlier : List VariableDefinition) (v : VariableDefinition) :
    (variableFindings schema doc op earlier v).countP Violation.repeatsVariable =
      if v.name ∈ earlier.map (·.name) then 1 else 0 := by
  have typeFindings : ∀ (isInput : Bool) (type : String) (place : Place),
      (if isInput then [] else [Violation.variableNotInput v.name type place]).countP
        Violation.repeatsVariable = 0 := by
    rintro (_ | _) type place <;> rfl
  rw [variableFindings, List.countP_append, typeFindings, Nat.add_zero]
  by_cases occurs : v.name ∈ earlier.map (·.name)
  · have repeated : earlier.any (·.name = v.name) = true := by simpa using occurs
    rw [if_pos repeated, if_pos occurs]
    rfl
  · have fresh : ¬ earlier.any (·.name = v.name) = true := by simpa using occurs
    rw [if_neg fresh, if_neg occurs]
    rfl

/-- Every declaration has a name that is new, or it is reported. -/
theorem countP_repeatsVariable_declared (schema : Schema) (doc : Document) (op : Operation)
    (declared : List VariableDefinition) :
    (withEarlier (variableFindings schema doc op) [] declared).countP Violation.repeatsVariable +
        (declared.map (·.name)).toFinset.card =
      declared.length := by
  -- Along the list from its end, since a name is compared with those before it.
  induction declared using List.reverseRecOn with
  | nil => rfl
  | append_singleton earlier v ih =>
      have distinct : ((earlier ++ [v]).map (·.name)).toFinset =
          insert v.name (earlier.map (·.name)).toFinset := by
        ext name
        simp
      rw [withEarlier_concat, List.countP_append, List.nil_append,
        countP_repeatsVariable_variableFindings, distinct, List.length_append,
        List.length_singleton, ← ih]
      by_cases occurs : v.name ∈ earlier.map (·.name)
      · rw [if_pos occurs, Finset.insert_eq_of_mem (List.mem_toFinset.mpr occurs)]
        omega
      · rw [if_neg occurs, Finset.card_insert_of_notMem (mt List.mem_toFinset.mp occurs)]
        omega

/-! ### Operation by operation -/

/-- In whatever state the workspace is, the rule adds the same violations. -/
theorem checkVariableTypes_violations (schema : Schema) (doc : Document) (w : Workspace) :
    (checkVariableTypes schema doc w).violations =
      w.violations ++ Rule.variableUniqueAndInputType.found schema doc :=
  (Workspace.gains_foldl_of_invariant (P := fun _ => True)
    (fun w op _ => ⟨checkOperationVariables_gains schema doc w op, trivial⟩)
    doc.operations trivial).violations

/-- **Declared variables are reported operation by operation.**  Whatever the workspace
holds, the rule adds the same reports to it.  They are, in the order of the operations and
of the variables of each, that a name occurs before in the same operation, and that the
type at the core is not defined or is an output type.  An operation is reported as if it
stood alone, and as many names are reported as there are more declarations than names. -/
theorem validate_reports_variable_declarations (capacity : Nat) (schema : Schema)
    (doc : Document) :
    let reports (doc : Document) : List Violation :=
      ((Validator.ofConfig ⟨capacity, [.variableUniqueAndInputType]⟩).validate schema doc).1
    let alone (op : Operation) : Document := ⟨[.operation op], doc.file⟩
    (∀ w, (checkVariableTypes schema doc w).violations = w.violations ++ reports doc) ∧
      ReportsIn DeclarationPart.BeforeInDocument (doc.DeclarationFault schema) (reports doc) ∧
      reports doc = doc.operations.flatMap (fun op => reports (alone op)) ∧
      ∀ op : Operation, (reports (alone op)).countP Violation.repeatsVariable =
        op.declared.length - (op.declared.map (·.name)).toFinset.card := by
  simp only [Validator.validate_single]
  refine ⟨checkVariableTypes_violations schema doc, doc.reportsIn_declarationFault schema, ?_, ?_⟩
  · refine List.flatMap_congr fun op _ => ?_
    exact (List.append_nil _).symm
  · intro op
    have counted :=
      countP_repeatsVariable_declared schema ⟨[.operation op], doc.file⟩ op op.declared
    rw [← counted, Nat.add_sub_cancel]
    exact congrArg _ (List.append_nil _)

end GraphQLStatics
