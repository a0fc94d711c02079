import GraphQLStatics.Proofs.PoolIsolation
import GraphQLStatics.Proofs.SelectionScopes
import GraphQLStatics.Proofs.VariableUses

/-!
# Variables by site

A variable within the scope of an operation has a site: the definition that holds
it, the address of a selection, an argument of the selection or of one of its
directives, and an address within the value of the argument.  The schema gives
the location that the variable flows into, by going down from the parameter that
the argument is for, one list or object at a time.  Where the schema has no
answer there is no location.

The rule about the positions of variables looks at each site once, and reports a
variable there if the location does not take its type.

## Main Definitions

* `InputPosition.intoItem`, `Schema.intoField`: the locations within a value
* `ArgumentStands`, `Operation.ArgumentStands`: an argument stands at a site
* `VariableSite`, `Operation.variableAt?`: the variable at a site
* `Operation.Misuses`: a violation reports the variable at a site

## Main Statements

* `Value.enumerates_occurrences`: the variables within a value
* `Operation.enumerates_scopeArguments`: the arguments within an operation's scope
* `validate_reports_misused_variables`: which variables are reported
-/

namespace GraphQLStatics

/-! ### Locations within a value -/

/-- The location of the items of a list.  It has no default. -/
def InputPosition.intoItem : Option InputPosition → Option InputPosition
  | some ⟨.list item _, _⟩ => some ⟨item, false⟩
  | some ⟨.named _ _, _⟩ => none
  | none => none

/-- The location of a field of an object, if the type within all lists is an
input object with the field. -/
def Schema.intoField (schema : Schema) (key : String) :
    Option InputPosition → Option InputPosition
  | none => none
  | some location =>
    match schema.type? location.type.innermostName with
    | some (.defined _ _ (.inputObject fields)) =>
      (fields.find? key).map fun p => ⟨p.type, p.default.isSome⟩
    | _ => none

theorem InputPosition.bind_item? (target : Option InputPosition) :
    target.bind InputPosition.item? = InputPosition.intoItem target := by
  rcases target with _ | ⟨_ | _, _⟩ <;> rfl

theorem Schema.map_position_inputFields (schema : Schema) (key : String)
    (target : Option InputPosition) :
    ((target.bind (InputPosition.inputFields? schema)).bind (·.find? key)).map
        Parameter.position =
      schema.intoField key target := by
  cases target with
  | none => rfl
  | some location =>
      rw [Option.bind_some, InputPosition.inputFields?, intoField]
      rcases schema.type? location.type.innermostName with
        _ | (_ | ⟨_, _, _ | _ | _ | _ | _ | _⟩) <;> rfl

namespace Value

/-- The variable at an address within a value that flows into the location
`target`, with the location that the variable flows into. -/
def occurrenceAt? (schema : Schema) :
    List Nat → Option InputPosition → Value → Option Occurrence
  | [], target, .var name => some ⟨name, target⟩
  | i :: path, target, .list items =>
    (items[i]?).bind fun item => occurrenceAt? schema path (InputPosition.intoItem target) item
  | i :: path, target, .object fields =>
    (fields[i]?).bind fun field =>
      occurrenceAt? schema path (schema.intoField field.1 target) field.2
  | _, _, _ => none

/-- An address within a list or an object begins with an index. -/
theorem enumerates_of_index {at? : List Nat → Option Occurrence} {l : List Occurrence}
    (within : Enumerates (fun p : Nat × List Nat => at? (p.1 :: p.2)) l)
    (notHere : at? [] = none) : Enumerates at? l := by
  refine within.rename (fun p => p.1 :: p.2) ?_ (fun _ _ => rfl) ?_
  · rintro ⟨i, path⟩ ⟨j, path'⟩ - - same
    obtain ⟨rfl, rfl⟩ := List.cons.inj same
    rfl
  · rintro (_ | ⟨i, path⟩) live
    · rw [notHere] at live
      cases live
    · exact ⟨(i, path), live, rfl⟩

/-- **The variables within a value.**  Each is listed once, with the location that
it flows into. -/
theorem enumerates_occurrences (schema : Schema) (target : Option InputPosition)
    (value : Value) :
    Enumerates (fun path => value.occurrenceAt? schema path target)
      (value.occurrences schema target) := by
  induction value using Value.induction generalizing target with
  | var name =>
      refine .singleton [] rfl ?_
      rintro (_ | ⟨i, path⟩) live
      · rfl
      · cases live
  | list items ih =>
      rw [occurrences, itemOccurrences_eq_flatMap, InputPosition.bind_item?]
      refine enumerates_of_index ?_ rfl
      exact (Enumerates.getElem? items).bind fun item mem => ih item mem _
  | object fields ih =>
      rw [occurrences, fieldOccurrences_eq_flatMap]
      simp only [Schema.map_position_inputFields]
      refine enumerates_of_index ?_ rfl
      exact (Enumerates.getElem? fields).bind fun field mem => ih field mem _
  | int n | float bits | string text | boolean b | null | enum name =>
      refine .nil ?_
      rintro (_ | ⟨i, path⟩) <;> rfl

end Value

/-! ### Arguments -/

/-- An argument of an element, which is given by its position and its
parameters. -/
def argumentUse (position : Position) (parameters : Option (OrderedMap Parameter))
    (argument : String × Value) : ArgumentUse where
  position := position
  value := argument.2
  target := (parameters.bind (·.find? argument.1)).map fun p => ⟨p.type, p.default.isSome⟩

/-- An argument of a directive, by its index. -/
def DirectiveUse.argumentAt? (schema : Schema) (d : DirectiveUse) (i : Nat) :
    Option ArgumentUse :=
  (d.arguments[i]?).map (argumentUse d.position ((schema.directive? d.name).map (·.parameters)))

/-- An argument of one of some directives. -/
def directiveArgumentAt? (schema : Schema) (ds : List DirectiveUse) (directive argument : Nat) :
    Option ArgumentUse :=
  (ds[directive]?).bind fun d => d.argumentAt? schema argument

/-- An argument of a selection: one of a directive, or one of the field. -/
def Visit.argumentAt? (schema : Schema) (visit : Visit) (argument : Nat) :
    Option Nat → Option ArgumentUse
  | some directive => directiveArgumentAt? schema visit.selection.directives directive argument
  | none =>
    match visit.selection with
    | .field f _ =>
      (f.arguments[argument]?).map
        (argumentUse f.position ((visit.scope.bind (·.field? f.name)).map (·.parameters)))
    | .spread _ => none
    | .inline _ _ => none

theorem enumerates_argumentUses (position : Position)
    (parameters : Option (OrderedMap Parameter)) (arguments : List (String × Value)) :
    Enumerates (fun i : Nat => (arguments[i]?).map (argumentUse position parameters))
      (argumentUses position parameters arguments) :=
  (Enumerates.getElem? arguments).map _

theorem enumerates_directiveArguments (schema : Schema) (ds : List DirectiveUse) :
    Enumerates (fun p : Nat × Nat => directiveArgumentAt? schema ds p.1 p.2)
      (directiveArguments schema ds) :=
  (Enumerates.getElem? ds).bind fun d _ => enumerates_argumentUses d.position _ d.arguments

namespace Visit

/-- Directives are told from the field by an index. -/
theorem enumerates_of_directives {schema : Schema} (visit : Visit) {own : List ArgumentUse}
    (field : Enumerates (fun argument => visit.argumentAt? schema argument none) own) :
    Enumerates (fun p : Option Nat × Nat => visit.argumentAt? schema p.2 p.1)
      (own ++ directiveArguments schema visit.selection.directives) := by
  refine (field.sum (enumerates_directiveArguments schema visit.selection.directives)).rename
    (Sum.elim (fun argument => (none, argument)) fun p => (some p.1, p.2)) ?_ ?_ ?_
  · rintro (i | ⟨d, i⟩) (j | ⟨e, j⟩) - - same <;> simp_all
  · rintro (i | ⟨d, i⟩) - <;> rfl
  · rintro ⟨_ | d, i⟩ live
    · exact ⟨.inl i, live, rfl⟩
    · exact ⟨.inr (d, i), live, rfl⟩

/-- The arguments of a selection. -/
theorem enumerates_arguments (schema : Schema) (visit : Visit) :
    Enumerates (fun p : Option Nat × Nat => visit.argumentAt? schema p.2 p.1)
      (visit.arguments schema) := by
  obtain ⟨selection, scope⟩ := visit
  cases selection with
  | field f sub =>
      exact enumerates_of_directives ⟨.field f sub, scope⟩
        (enumerates_argumentUses f.position _ f.arguments)
  | spread f =>
      exact enumerates_of_directives ⟨.spread f, scope⟩ (.nil fun _ => rfl)
  | inline f sub =>
      exact enumerates_of_directives ⟨.inline f sub, scope⟩ (.nil fun _ => rfl)

end Visit

/-! ### Sites -/

/-- Where an argument stands. -/
structure ArgumentSite where
  /-- The address of a selection, which is empty for the definition itself. -/
  selection : List Nat
  /-- The index of a directive, unless the argument is one of a field. -/
  directive : Option Nat
  argument : Nat
  deriving DecidableEq, Repr

/-- The argument at a site of a definition with the given directives and
selections. -/
def argumentIn? (schema : Schema) (ds : List DirectiveUse) (set : SelectionSet)
    (scope : Option TypeDef) : ArgumentSite → Option ArgumentUse
  | ⟨[], some directive, argument⟩ => directiveArgumentAt? schema ds directive argument
  | ⟨[], none, _⟩ => none
  | ⟨i :: path, directive, argument⟩ =>
    (set.visitAt? schema scope (i :: path)).bind fun visit =>
      visit.argumentAt? schema argument directive

/-- Within a definition with the given directives and selections, which are made on
the type, the argument stands at the site. -/
inductive ArgumentStands (schema : Schema) (ds : List DirectiveUse) (set : SelectionSet)
    (root : Option TypeDef) : ArgumentSite → ArgumentUse → Prop
  | ofDefinition {directive i : Nat} {d : DirectiveUse} {argument : String × Value}
      (isDirective : ds[directive]? = some d) (isArgument : d.arguments[i]? = some argument) :
      ArgumentStands schema ds set root ⟨[], some directive, i⟩
        (argumentUse d.position ((schema.directive? d.name).map (·.parameters)) argument)
  | ofDirective {path : List Nat} {s : Selection} {scope : Option TypeDef} {directive i : Nat}
      {d : DirectiveUse} {argument : String × Value}
      (stands : set.Stands schema root path s scope)
      (isDirective : s.directives[directive]? = some d)
      (isArgument : d.arguments[i]? = some argument) :
      ArgumentStands schema ds set root ⟨path, some directive, i⟩
        (argumentUse d.position ((schema.directive? d.name).map (·.parameters)) argument)
  | ofField {path : List Nat} {f : FieldUse} {sub : SelectionSet} {scope : Option TypeDef}
      {i : Nat} {argument : String × Value}
      (stands : set.Stands schema root path (.field f sub) scope)
      (isArgument : f.arguments[i]? = some argument) :
      ArgumentStands schema ds set root ⟨path, none, i⟩
        (argumentUse f.position ((scope.bind (·.field? f.name)).map (·.parameters)) argument)

/-- An argument stands where going down by indices leads. -/
theorem argumentStands_iff {schema : Schema} {ds : List DirectiveUse} {set : SelectionSet}
    {root : Option TypeDef} {site : ArgumentSite} {argument : ArgumentUse} :
    ArgumentStands schema ds set root site argument ↔
      argumentIn? schema ds set root site = some argument := by
  constructor
  · intro stands
    cases stands with
    | ofDefinition isDirective isArgument =>
        simp [argumentIn?, directiveArgumentAt?, DirectiveUse.argumentAt?, isDirective, isArgument]
    | ofDirective stands isDirective isArgument =>
        obtain ⟨k, path, rfl⟩ := List.exists_cons_of_ne_nil stands.ne_nil
        simp [argumentIn?, SelectionSet.stands_iff.mp stands, Visit.argumentAt?,
          directiveArgumentAt?, DirectiveUse.argumentAt?, isDirective, isArgument]
    | ofField stands isArgument =>
        obtain ⟨k, path, rfl⟩ := List.exists_cons_of_ne_nil stands.ne_nil
        simp [argumentIn?, SelectionSet.stands_iff.mp stands, Visit.argumentAt?, isArgument]
  · intro atSite
    obtain ⟨path, directive, i⟩ := site
    cases path with
    | nil =>
        cases directive with
        | none => cases atSite
        | some directive =>
            obtain ⟨d, isDirective, found⟩ := Option.bind_eq_some_iff.mp atSite
            obtain ⟨argument, isArgument, rfl⟩ := Option.map_eq_some_iff.mp found
            exact .ofDefinition isDirective isArgument
    | cons k path =>
        obtain ⟨⟨s, scope⟩, atPath, found⟩ := Option.bind_eq_some_iff.mp atSite
        have stands := SelectionSet.stands_iff.mpr atPath
        cases directive with
        | some directive =>
            obtain ⟨d, isDirective, found⟩ := Option.bind_eq_some_iff.mp found
            obtain ⟨argument, isArgument, rfl⟩ := Option.map_eq_some_iff.mp found
            exact .ofDirective stands isDirective isArgument
        | none =>
            cases s with
            | field f sub =>
                obtain ⟨argument, isArgument, rfl⟩ := Option.map_eq_some_iff.mp found
                exact .ofField stands isArgument
            | spread f => cases found
            | inline f sub => cases found

/-- The arguments of a definition. -/
theorem enumerates_argumentIn (schema : Schema) (ds : List DirectiveUse) (set : SelectionSet)
    (scope : Option TypeDef) :
    Enumerates (argumentIn? schema ds set scope)
      (directiveArguments schema ds ++ set.arguments schema scope) := by
  have inSelections := (set.enumerates_walk schema scope).bind fun visit _ =>
    visit.enumerates_arguments schema
  refine ((enumerates_directiveArguments schema ds).sum inSelections).rename
    (Sum.elim (fun p => ⟨[], some p.1, p.2⟩) fun p => ⟨p.1, p.2.1, p.2.2⟩) ?_ ?_ ?_
  · rintro (⟨d, i⟩ | ⟨_ | ⟨k, path⟩, d, i⟩) (⟨e, j⟩ | ⟨_ | ⟨k', path'⟩, e, j⟩) live live' same <;>
      simp_all [SelectionSet.visitAt?]
  · rintro (⟨d, i⟩ | ⟨_ | ⟨k, path⟩, d, i⟩) live
    · rfl
    · cases live
    · rfl
  · rintro ⟨_ | ⟨k, path⟩, _ | d, i⟩ live
    · cases live
    · exact ⟨.inl (d, i), live, rfl⟩
    · exact ⟨.inr (k :: path, none, i), live, rfl⟩
    · exact ⟨.inr (k :: path, some d, i), live, rfl⟩

/-- Where a variable stands within the scope of an operation. -/
structure VariableSite where
  /-- The fragment that holds the argument, unless the operation itself does. -/
  fragment : Option String
  argument : ArgumentSite
  /-- The address within the value of the argument. -/
  path : List Nat
  deriving DecidableEq, Repr

namespace Operation

/-- The last definition of a fragment that the operation reaches. -/
def reachedFragment? (doc : Document) (op : Operation) (name : String) : Option Fragment :=
  if doc.SpreadsTo op.selections name then doc.lastFragment? name else none

/-- The argument at a site of the operation, or of a fragment that the operation
reaches. -/
def argumentAt? (schema : Schema) (doc : Document) (op : Operation) :
    Option String → ArgumentSite → Option ArgumentUse
  | none, site => argumentIn? schema op.directives op.selections (schema.rootScope op.kind) site
  | some name, site =>
    (op.reachedFragment? doc name).bind fun frag =>
      argumentIn? schema frag.directives frag.selections (schema.fragmentScope frag) site

/-- The argument stands at a site of the operation, or of the last definition of a
fragment that the operation reaches. -/
inductive ArgumentStands (schema : Schema) (doc : Document) (op : Operation) :
    Option String → ArgumentSite → ArgumentUse → Prop
  | own {site : ArgumentSite} {argument : ArgumentUse}
      (stands : GraphQLStatics.ArgumentStands schema op.directives op.selections
        (schema.rootScope op.kind) site argument) : ArgumentStands schema doc op none site argument
  | reached {name : String} {frag : Fragment} {site : ArgumentSite} {argument : ArgumentUse}
      (spreads : doc.SpreadsTo op.selections name) (isLast : doc.lastFragment? name = some frag)
      (stands : GraphQLStatics.ArgumentStands schema frag.directives frag.selections
        (schema.type? frag.condition) site argument) :
      ArgumentStands schema doc op (some name) site argument

theorem argumentStands_iff {schema : Schema} {doc : Document} {op : Operation}
    {fragment : Option String} {site : ArgumentSite} {argument : ArgumentUse} :
    op.ArgumentStands schema doc fragment site argument ↔
      op.argumentAt? schema doc fragment site = some argument := by
  constructor
  · intro stands
    cases stands with
    | own stands => exact GraphQLStatics.argumentStands_iff.mp stands
    | reached spreads isLast stands =>
        rw [argumentAt?, reachedFragment?, if_pos spreads, isLast]
        exact GraphQLStatics.argumentStands_iff.mp stands
  · intro atSite
    cases fragment with
    | none => exact .own (GraphQLStatics.argumentStands_iff.mpr atSite)
    | some name =>
        obtain ⟨frag, isReached, atSite⟩ := Option.bind_eq_some_iff.mp atSite
        rw [reachedFragment?] at isReached
        split at isReached
        case isTrue spreads =>
          exact .reached spreads isReached (GraphQLStatics.argumentStands_iff.mpr atSite)
        case isFalse => cases isReached

/-- The variable at a site, with the position of the field or the directive that
has the argument. -/
def variableAt? (schema : Schema) (doc : Document) (op : Operation) (site : VariableSite) :
    Option (Position × Occurrence) :=
  (op.argumentAt? schema doc site.fragment site.argument).bind fun argument =>
    (argument.value.occurrenceAt? schema site.path argument.target).map (argument.position, ·)

/-- Each fragment that is reached counts once. -/
theorem enumerates_reached (doc : Document) (op : Operation) :
    Enumerates (op.reachedFragment? doc) (doc.reached op.selections) := by
  have marks := marks_reachable op.selections (Workspace.boundTo_bindTo Workspace.fresh doc)
    (Document.ClosedUpTo.nil doc [])
  have found : ∀ frag ∈ doc.reached op.selections,
      op.reachedFragment? doc frag.name = some frag := by
    intro frag mem
    obtain ⟨reaches, isLast⟩ := Document.mem_reached.mp mem
    rw [reachedFragment?, if_pos (Document.spreadsTo_iff_reaches.mpr reaches), isLast]
  refine ⟨(doc.reached op.selections).map (·.name), marks.nodup_reached, ?_, ?_⟩
  · rw [List.map_map]
    exact List.map_congr_left found
  · intro name isSome
    rw [reachedFragment?] at isSome
    split at isSome
    · next spreadsTo =>
        obtain ⟨frag, isLast⟩ := Option.isSome_iff_exists.mp isSome
        obtain ⟨-, rfl⟩ := Document.mem_of_lastFragment? isLast
        exact List.mem_map_of_mem (Document.mem_reached.mpr
          ⟨Document.spreadsTo_iff_reaches.mp spreadsTo, isLast⟩)
    · cases isSome

/-- **The arguments within the scope of an operation.**  Each is listed once, with
the location that its value flows into. -/
theorem enumerates_scopeArguments (schema : Schema) (doc : Document) (op : Operation) :
    Enumerates (fun p : Option String × ArgumentSite => op.argumentAt? schema doc p.1 p.2)
      (scopeArguments schema doc op) := by
  have own := enumerates_argumentIn schema op.directives op.selections (schema.rootScope op.kind)
  have others := (op.enumerates_reached doc).bind fun frag _ =>
    enumerates_argumentIn schema frag.directives frag.selections (schema.fragmentScope frag)
  have ownArguments : op.ownArguments schema = directiveArguments schema op.directives ++
      op.selections.arguments schema (schema.rootScope op.kind) := by
    rw [schema.rootScope_eq, ownArguments]
  rw [scopeArguments, ownArguments]
  refine (own.sum others).rename
    (Sum.elim (fun site => (none, site)) fun p => (some p.1, p.2)) ?_ ?_ ?_
  · rintro (site | ⟨name, site⟩) (site' | ⟨name', site'⟩) - - same <;> simp_all
  · rintro (site | ⟨name, site⟩) - <;> rfl
  · rintro ⟨_ | name, site⟩ live
    · exact ⟨.inl site, live, rfl⟩
    · exact ⟨.inr (name, site), live, rfl⟩

end Operation

/-! ### What is reported -/

/-- The variable has a default, and it is not the literal `null`. -/
def VariableDefinition.hasNonNullDefault (d : VariableDefinition) : Bool :=
  match d.default with
  | none => false
  | some .null => false
  | some _ => true

theorem VariableDefinition.hasNonNullDefault_eq (d : VariableDefinition) :
    d.hasNonNullDefault = d.hasDefault := by
  unfold hasNonNullDefault hasDefault
  rcases d.default with _ | (_ | _) <;> rfl

namespace Operation

/-- The violation reports the variable at the site: it flows into a known
location, and the type of its first declaration does not fit there. -/
inductive Misuses (schema : Schema) (doc : Document) (op : Operation) (site : VariableSite) :
    Violation → Prop
  | usage {argument : ArgumentUse} {name : String} {location : InputPosition}
      {d : VariableDefinition}
      (stands : op.ArgumentStands schema doc site.fragment site.argument argument)
      (within : argument.value.occurrenceAt? schema site.path argument.target =
        some ⟨name, some location⟩)
      (declared : op.declared.find? (·.name = name) = some d)
      (notAllowed : (TypeRef.ofExpr d.type).usageAllowed d.hasNonNullDefault location.type
        location.hasDefault = false) :
      Misuses schema doc op site
        (.usageNotAllowed name (TypeRef.ofExpr d.type) location.type
          (doc.place argument.position))

theorem misuses_iff {schema : Schema} {doc : Document} {op : Operation} {site : VariableSite}
    {v : Violation} :
    op.Misuses schema doc site v ↔
      ((op.variableAt? schema doc site).bind fun found => usageViolation? doc op found.1 found.2) =
        some v := by
  constructor
  · rintro ⟨stands, within, declared, notAllowed⟩
    rw [VariableDefinition.hasNonNullDefault_eq] at notAllowed
    simp [variableAt?, argumentStands_iff.mp stands, within, usageViolation?, declared, notAllowed]
  · intro reported
    obtain ⟨found, atSite, reported⟩ := Option.bind_eq_some_iff.mp reported
    obtain ⟨argument, isArgument, atSite⟩ := Option.bind_eq_some_iff.mp atSite
    obtain ⟨⟨name, target⟩, within, rfl⟩ := Option.map_eq_some_iff.mp atSite
    cases target with
    | none => cases reported
    | some location =>
        cases declared : op.declared.find? (·.name = name) with
        | none => simp [usageViolation?, declared] at reported
        | some d =>
            simp only [usageViolation?, declared] at reported
            split at reported
            · cases reported
            · next notAllowed =>
                cases reported
                rw [← d.hasNonNullDefault_eq] at notAllowed
                exact .usage (argumentStands_iff.mpr isArgument) within declared
                  (by simpa using notAllowed)

/-- Each variable that is reported is reported at its site. -/
theorem enumerates_usageFindings (schema : Schema) (doc : Document) (op : Operation) :
    Enumerates (fun site =>
        (op.variableAt? schema doc site).bind fun found => usageViolation? doc op found.1 found.2)
      (usageFindings schema doc op) := by
  have withinArguments := (op.enumerates_scopeArguments schema doc).bind fun argument _ =>
    (argument.value.enumerates_occurrences schema argument.target).filterMap
      (usageViolation? doc op argument.position)
  have sameAt : ∀ site : VariableSite,
      ((op.variableAt? schema doc site).bind fun found => usageViolation? doc op found.1 found.2) =
        (op.argumentAt? schema doc site.fragment site.argument).bind fun argument =>
          (argument.value.occurrenceAt? schema site.path argument.target).bind
            (usageViolation? doc op argument.position) := by
    intro site
    simp only [variableAt?, Option.bind_assoc, Option.bind_map]
    rfl
  refine withinArguments.rename (fun p => ⟨p.1.1, p.1.2, p.2⟩) ?_ ?_ ?_
  · rintro ⟨⟨fragment, argument⟩, path⟩ ⟨⟨fragment', argument'⟩, path'⟩ - - same
    simp_all
  · exact fun p _ => sameAt ⟨p.1.1, p.1.2, p.2⟩
  · rintro ⟨fragment, argument, path⟩ live
    rw [sameAt] at live
    exact ⟨((fragment, argument), path), live, rfl⟩

end Operation

/-- **Variables are reported by site.**  A validator with the rule about the
positions of variables reports, for each operation in turn, the variables within
its scope that flow into a known location and whose first declaration does not
fit there, each of them once, and nothing else. -/
theorem validate_reports_misused_variables (capacity : Nat) (schema : Schema)
    (doc : Document) :
    ∃ report : Operation → List Violation,
      ((Validator.ofConfig ⟨capacity, [.allVariableUsagesAreAllowed]⟩).validate schema doc).1 =
        (doc.definitions.flatMap fun
          | .operation op => report op
          | .fragment _ => []
          | .typeSystem _ => []) ∧
      ∀ op, ∃ sites : List VariableSite, sites.Nodup ∧
        List.Forall₂ (op.Misuses schema doc) sites (report op) ∧
        ∀ site v, op.Misuses schema doc site v → site ∈ sites := by
  have byDefinition := Document.flatMap_operations (usageFindings schema doc) doc
  refine ⟨usageFindings schema doc, (Validator.validate_single ..).trans byDefinition, ?_⟩
  intro op
  obtain ⟨sites, nodup, reported, complete⟩ :=
    (op.enumerates_usageFindings schema doc).exists_forall₂
  refine ⟨sites, nodup, ?_, ?_⟩
  · exact reported.imp fun site v => Operation.misuses_iff.mpr
  · exact fun site v misuses => complete site v (Operation.misuses_iff.mp misuses)

end GraphQLStatics
