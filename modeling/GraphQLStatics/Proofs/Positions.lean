import GraphQLStatics.Proofs.Nesting
import GraphQLStatics.Proofs.VariableUses

/-!
# Positions do not matter to a verdict

Violations carry positions, but whether there are any does not depend on them.
`unplaced` puts the first position in the place of every other one; a `bare`
visit is without positions and also without the selections below it.  For each
kind of finding this file shows that there is one at an element if and only if
there is one at the element without positions.

The directives of a selection set can be read off its visits, so the bare visits
of a selection set say all that a verdict about it depends on.

## Main Definitions

* `DirectiveUse.unplaced`, `FieldUse.unplaced`, `SpreadUse.unplaced`,
  `InlineUse.unplaced`, `VariableDefinition.unplaced`, `ArgumentUse.unplaced`,
  `DirectiveSite.unplaced`
* `Selection.bare`, `Visit.bare`

## Main Statements

* `SelectionSet.directiveSites_eq_map_walk`
* `siteFindings_unplaced`, `visitFieldFindings_bare`, `visitFragmentFindings_bare`,
  `violations_unplaced`, `variableFindings_unplaced`
-/

namespace GraphQLStatics

/-! ### Elements without positions -/

/-- The directive without its position. -/
def DirectiveUse.unplaced (d : DirectiveUse) : DirectiveUse :=
  { d with position := .first }

/-- The field without positions. -/
def FieldUse.unplaced (f : FieldUse) : FieldUse :=
  { f with position := .first, directives := f.directives.map DirectiveUse.unplaced }

/-- The spread without positions. -/
def SpreadUse.unplaced (f : SpreadUse) : SpreadUse :=
  { f with position := .first, directives := f.directives.map DirectiveUse.unplaced }

/-- The inline fragment without positions. -/
def InlineUse.unplaced (f : InlineUse) : InlineUse :=
  { f with position := .first, directives := f.directives.map DirectiveUse.unplaced }

/-- The declared variable without its position. -/
def VariableDefinition.unplaced (v : VariableDefinition) : VariableDefinition :=
  { v with position := .first }

/-- The argument without its position. -/
def ArgumentUse.unplaced (a : ArgumentUse) : ArgumentUse :=
  { a with position := .first }

/-- The directives of an element without positions. -/
def DirectiveSite.unplaced (site : DirectiveSite) : DirectiveSite :=
  { site with directives := site.directives.map DirectiveUse.unplaced }

/-- The selection without positions and without what is below it. -/
def Selection.bare : Selection → Selection
  | .field f _ => .field f.unplaced .nil
  | .spread f => .spread f.unplaced
  | .inline f _ => .inline f.unplaced .nil

/-- The visit without positions and without what is below its selection. -/
def Visit.bare (visit : Visit) : Visit where
  selection := visit.selection.bare
  scope := visit.scope

/-! ### What visits say -/

/-- The directives of the selection. -/
def Visit.site (visit : Visit) : DirectiveSite :=
  match visit.selection with
  | .field f _ => ⟨.field, f.directives⟩
  | .spread f => ⟨.fragmentSpread, f.directives⟩
  | .inline f _ => ⟨.inlineFragment, f.directives⟩

theorem SelectionSet.directiveSites_eq_map_walk (set : SelectionSet) (schema : Schema)
    (scope : Option TypeDef) :
    set.directiveSites = (set.walk schema scope).map Visit.site := by
  rw [set.directiveSites_eq_map_preorder, ← walk_map_selection schema set scope, List.map_map]
  refine List.map_congr_left fun visit _ => ?_
  obtain ⟨selection, scope⟩ := visit
  cases selection with
  | field f sub => rfl
  | spread f => rfl
  | inline f sub => rfl

theorem Visit.site_bare (visit : Visit) : visit.bare.site = visit.site.unplaced := by
  obtain ⟨selection, scope⟩ := visit
  cases selection with
  | field f sub => rfl
  | spread f => rfl
  | inline f sub => rfl

theorem directiveArguments_unplaced (schema : Schema) (ds : List DirectiveUse) :
    directiveArguments schema (ds.map DirectiveUse.unplaced) =
      (directiveArguments schema ds).map ArgumentUse.unplaced := by
  have each : ∀ d : DirectiveUse, d.unplaced.argumentUses schema =
      (d.argumentUses schema).map ArgumentUse.unplaced := by
    intro d
    simp [DirectiveUse.argumentUses, argumentUses, DirectiveUse.unplaced, ArgumentUse.unplaced]
  simp only [directiveArguments, List.flatMap_map, List.map_flatMap, each]

theorem Visit.arguments_bare (schema : Schema) (visit : Visit) :
    visit.bare.arguments schema = (visit.arguments schema).map ArgumentUse.unplaced := by
  obtain ⟨selection, scope⟩ := visit
  cases selection with
  | field f sub =>
      have own : ∀ parameters, argumentUses f.unplaced.position parameters f.unplaced.arguments =
          (argumentUses f.position parameters f.arguments).map ArgumentUse.unplaced := by
        intro parameters
        simp [argumentUses, FieldUse.unplaced, ArgumentUse.unplaced]
      simp only [Visit.arguments, Visit.bare, Selection.bare, List.map_append,
        ← directiveArguments_unplaced, ← own]
      rfl
  | spread f => exact directiveArguments_unplaced schema f.directives
  | inline f sub => exact directiveArguments_unplaced schema f.directives

/-- The arguments within a selection set, without positions, are those of its
bare visits. -/
theorem mem_unplaced_arguments {schema : Schema} {set : SelectionSet}
    {scope : Option TypeDef} {argument : ArgumentUse} :
    argument ∈ (set.arguments schema scope).map ArgumentUse.unplaced ↔
      ∃ bare ∈ (set.walk schema scope).map Visit.bare, argument ∈ bare.arguments schema := by
  simp only [SelectionSet.arguments, List.map_flatMap, List.mem_flatMap,
    ← Visit.arguments_bare, List.mem_map, exists_exists_and_eq_and]

/-- The directives within a selection set, without positions, are those of its
bare visits. -/
theorem mem_unplaced_directiveSites (schema : Schema) {set : SelectionSet}
    (scope : Option TypeDef) {site : DirectiveSite} :
    site ∈ set.directiveSites.map DirectiveSite.unplaced ↔
      ∃ bare ∈ (set.walk schema scope).map Visit.bare, bare.site = site := by
  simp only [set.directiveSites_eq_map_walk schema scope, List.mem_map,
    exists_exists_and_eq_and, Visit.site_bare]

/-! ### Findings in view of earlier elements -/

/-- There is a result for the images of a list's elements if and only if there
is one for the elements, provided that this holds element by element. -/
theorem withEarlier_map_eq_nil_iff {α β γ δ : Type} (image : α → γ)
    {result : List α → α → List β} {result' : List γ → γ → List δ}
    (same : ∀ earlier x, result' (earlier.map image) (image x) = [] ↔ result earlier x = [])
    (earlier l : List α) :
    withEarlier result' (earlier.map image) (l.map image) = [] ↔
      withEarlier result earlier l = [] := by
  induction l generalizing earlier with
  | nil => simp [withEarlier]
  | cons x rest ih =>
      have next := ih (earlier ++ [x])
      rw [List.map_append, List.map_singleton] at next
      rw [List.map_cons, withEarlier, withEarlier, List.append_eq_nil_iff,
        List.append_eq_nil_iff, same, next]

theorem siteFindings_unplaced (schema : Schema) (doc doc' : Document) (site : DirectiveSite) :
    siteFindings schema doc' site.unplaced = [] ↔ siteFindings schema doc site = [] := by
  refine withEarlier_map_eq_nil_iff DirectiveUse.unplaced ?_ [] site.directives
  intro earlier d
  have sameEarlier : (earlier.map DirectiveUse.unplaced).any (·.name = d.name) =
      earlier.any (·.name = d.name) := List.any_map
  have sameName : d.unplaced.name = d.name := rfl
  have sameLocation : site.unplaced.location = site.location := rfl
  unfold directiveFindings
  rw [sameName, sameEarlier, sameLocation]
  cases schema.directive? d.name with
  | none => simp
  | some directive => simp

theorem variableFindings_unplaced (schema : Schema) (doc doc' : Document)
    (op op' : Operation) (declared : List VariableDefinition) :
    withEarlier (variableFindings schema doc' op') []
        (declared.map VariableDefinition.unplaced) = [] ↔
      withEarlier (variableFindings schema doc op) [] declared = [] := by
  refine withEarlier_map_eq_nil_iff VariableDefinition.unplaced ?_ [] declared
  intro earlier v
  have sameEarlier : (earlier.map VariableDefinition.unplaced).any (·.name = v.name) =
      earlier.any (·.name = v.name) := List.any_map
  have sameName : v.unplaced.name = v.name := rfl
  have sameType : v.unplaced.type = v.type := rfl
  unfold variableFindings
  rw [sameName, sameEarlier, sameType]
  simp

/-! ### Findings at a visit -/

theorem conditionFindings_eq_nil_congr (schema : Schema) {doc doc' : Document}
    {position position' : Position} {name : String} :
    conditionFindings schema doc position name = [] ↔
      conditionFindings schema doc' position' name = [] := by
  unfold conditionFindings
  cases schema.type? name with
  | none => simp
  | some t => simp

theorem possibleFindings_eq_nil_congr (schema : Schema) {doc doc' : Document}
    {position position' : Position} {fragment : Option String}
    {scope condition : Option TypeDef} :
    possibleFindings schema doc position fragment scope condition = [] ↔
      possibleFindings schema doc' position' fragment scope condition = [] := by
  unfold possibleFindings
  split
  · simp
  · simp

theorem visitFieldFindings_bare (schema : Schema) (doc doc' : Document) (visit : Visit) :
    visitFieldFindings schema doc' visit.bare = [] ↔
      visitFieldFindings schema doc visit = [] := by
  obtain ⟨selection, scope⟩ := visit
  cases selection with
  | spread f => exact Iff.rfl
  | inline f sub => exact Iff.rfl
  | field f sub =>
      cases scope with
      | none => exact Iff.rfl
      | some scope =>
          have sameName : f.unplaced.name = f.name := rfl
          simp only [visitFieldFindings, Visit.bare, Selection.bare, fieldOnFindings, sameName]
          split
          · split
            · exact Iff.rfl
            · split
              · simp
              · split
                · simp
                · exact Iff.rfl
          · exact Iff.rfl

/-- What is wrong with a spread or an inline fragment depends on the conditions
of the last fragments. -/
theorem visitFragmentFindings_bare (schema : Schema) {doc doc' : Document}
    (sameConditions : ∀ name, (doc.lastFragment? name).map (·.condition) =
      (doc'.lastFragment? name).map (·.condition)) (visit : Visit) :
    visitFragmentFindings schema doc' visit.bare = [] ↔
      visitFragmentFindings schema doc visit = [] := by
  obtain ⟨selection, scope⟩ := visit
  cases selection with
  | field f sub => exact Iff.rfl
  | spread f =>
      have sameName : f.unplaced.fragment = f.fragment := rfl
      have same := sameConditions f.fragment
      simp only [visitFragmentFindings, Visit.bare, Selection.bare, sameName]
      cases found : doc.lastFragment? f.fragment with
      | none =>
          rw [found, Option.map_none, eq_comm, Option.map_eq_none_iff] at same
          simp [same]
      | some target =>
          rw [found, Option.map_some, eq_comm, Option.map_eq_some_iff] at same
          obtain ⟨target', found', sameCondition⟩ := same
          simp only [found', Schema.fragmentScope, sameCondition]
          exact possibleFindings_eq_nil_congr schema
  | inline f sub =>
      have sameCondition : f.unplaced.condition = f.condition := rfl
      simp only [visitFragmentFindings, Visit.bare, Selection.bare, sameCondition]
      cases f.condition with
      | none => exact Iff.rfl
      | some name =>
          simp only [List.append_eq_nil_iff]
          exact and_congr (conditionFindings_eq_nil_congr schema)
            (possibleFindings_eq_nil_congr schema)

/-! ### Variables -/

theorem usesVariable_unplaced (schema : Schema) (arguments : List ArgumentUse)
    (name : String) :
    UsesVariable schema (arguments.map ArgumentUse.unplaced) name ↔
      UsesVariable schema arguments name := by
  simp [UsesVariable, ArgumentUse.unplaced]

theorem Operation.declares_congr {op op' : Operation}
    (same : op.declared.map VariableDefinition.unplaced =
      op'.declared.map VariableDefinition.unplaced) (name : String) :
    op.declares name = op'.declares name := by
  have any := congrArg (List.any · fun v => decide (v.name = name)) same
  simp only [List.any_map] at any
  exact any

/-- Whether a variable fits where it is used depends on what is declared. -/
theorem usageViolation?_eq_none_congr {op op' : Operation}
    (same : op.declared.map VariableDefinition.unplaced =
      op'.declared.map VariableDefinition.unplaced) (doc doc' : Document)
    (position position' : Position) (occurrence : Occurrence) :
    usageViolation? doc' op' position' occurrence = none ↔
      usageViolation? doc op position occurrence = none := by
  have sameFound : (op.declared.find? (·.name = occurrence.name)).map
        VariableDefinition.unplaced =
      (op'.declared.find? (·.name = occurrence.name)).map VariableDefinition.unplaced := by
    have found := congrArg (List.find? fun v => decide (v.name = occurrence.name)) same
    simp only [List.find?_map] at found
    exact found
  unfold usageViolation?
  cases occurrence.target with
  | none => exact Iff.rfl
  | some target =>
      cases found : op.declared.find? (·.name = occurrence.name) with
      | none =>
          rw [found, Option.map_none, eq_comm, Option.map_eq_none_iff] at sameFound
          simp [sameFound]
      | some v =>
          rw [found, Option.map_some, eq_comm, Option.map_eq_some_iff] at sameFound
          obtain ⟨v', found', sameVariable⟩ := sameFound
          have sameType : v'.unplaced.type = v.unplaced.type := by rw [sameVariable]
          have sameDefault : v'.unplaced.hasDefault = v.unplaced.hasDefault := by
            rw [sameVariable]
          change v'.type = v.type at sameType
          change v'.hasDefault = v.hasDefault at sameDefault
          simp [found', sameType, sameDefault]

theorem violations_unplaced (schema : Schema) {op op' : Operation}
    (same : op.declared.map VariableDefinition.unplaced =
      op'.declared.map VariableDefinition.unplaced) (doc doc' : Document)
    (argument : ArgumentUse) :
    ArgumentUse.violations schema doc' op' argument.unplaced = [] ↔
      ArgumentUse.violations schema doc op argument = [] := by
  simp only [ArgumentUse.violations, List.filterMap_eq_nil_iff]
  refine forall_congr' ?_
  intro occurrence
  refine imp_congr Iff.rfl ?_
  exact usageViolation?_eq_none_congr same doc doc' _ _ occurrence

end GraphQLStatics
