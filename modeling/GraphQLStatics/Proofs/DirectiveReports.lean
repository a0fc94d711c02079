import GraphQLStatics.Proofs.Nesting
import GraphQLStatics.Proofs.PoolIsolation

/-!
# What is reported about directives

Directives stand at operations, at fragments and at selections of any depth.  A
definition is known by its index in the document, and what is within it by an
address, where the empty address is that of the definition itself.  The rule about
directives goes through the lists of directives in the order of their addresses.

What is wrong with a directive depends on the directives before it in its own list and
on nothing else.  So each list can be counted by itself: of a directive that is not
repeatable, all occurrences but the first are reported.

## Main Definitions

* `Definition.directivesAt?`, `Document.directivesAt?`: the directives at an address
* `Violation.repeats`: the violation reports that a directive occurs again

## Main Statements

* `Document.enumeratesIn_directiveSites`: each list of directives is met once
* `countP_repeats_siteFindings`: how often a directive is reported as repeated
* `validate_reports_directives`: what is reported, list by list
-/

namespace GraphQLStatics

/-! ### Addresses of directives -/

/-- The directives at an address, where those at the empty address are given. -/
def SelectionSet.directivesAt? (own : DirectiveSite) (set : SelectionSet) :
    List Nat → Option DirectiveSite
  | [] => some own
  | i :: path => (set.at? (i :: path)).map Selection.site

/-- The directives at an address of a definition.  The definitions of the type system
have none that the rules look at. -/
def Definition.directivesAt? : Definition → List Nat → Option DirectiveSite
  | .operation op =>
    let location := match op.kind with
      | .query => .query
      | .mutation => .mutation
      | .subscription => .subscription
    op.selections.directivesAt? ⟨location, op.directives⟩
  | .fragment frag => frag.selections.directivesAt? ⟨.fragmentDefinition, frag.directives⟩
  | .typeSystem _ => fun _ => none

/-- The directives at an address of the definition with an index. -/
def Document.directivesAt? (doc : Document) (p : Nat × List Nat) : Option DirectiveSite :=
  (doc.definitions[p.1]?).bind fun definition => definition.directivesAt? p.2

/-- The directives of a definition come before those of its selections. -/
theorem SelectionSet.enumeratesIn_directivesAt? (own : DirectiveSite) (set : SelectionSet) :
    EnumeratesIn (List.Lex (· < ·)) (set.directivesAt? own) (own :: set.directiveSites) := by
  have here : EnumeratesIn (fun _ _ => False) (fun _ : Unit => some own) [own] :=
    .singleton () rfl fun _ _ => rfl
  have below := set.enumeratesIn_preorder.map Selection.site
  rw [← set.directiveSites_eq_map_preorder] at below
  refine (here.sum below).rename (Sum.elim (fun _ => []) id) ?_ ?_ ?_
  · rintro _ _ - live' (impossible | isBefore | ⟨⟨⟩, path⟩)
    · exact impossible.elim
    · exact isBefore
    · obtain _ | ⟨i, path⟩ := path
      · cases live'
      · exact .nil
  · rintro (⟨⟩ | _ | ⟨i, path⟩) live
    · rfl
    · cases live
    · rfl
  · rintro (_ | ⟨i, path⟩) live
    · exact ⟨.inl (), rfl, rfl⟩
    · exact ⟨.inr (i :: path), live, rfl⟩

theorem Definition.enumeratesIn_directiveSites (definition : Definition) :
    EnumeratesIn (List.Lex (· < ·)) definition.directivesAt? definition.directiveSites := by
  cases definition with
  | operation op =>
      obtain ⟨_, kind, _, _, _, selections⟩ := op
      cases kind with
      | query => exact selections.enumeratesIn_directivesAt? _
      | mutation => exact selections.enumeratesIn_directivesAt? _
      | subscription => exact selections.enumeratesIn_directivesAt? _
  | fragment frag => exact frag.selections.enumeratesIn_directivesAt? _
  | typeSystem _ => exact .nil fun _ => rfl

/-- Each list of directives is met once, in the order of addresses. -/
theorem Document.enumeratesIn_directiveSites (doc : Document) :
    EnumeratesIn (Prod.Lex (· < ·) (List.Lex (· < ·))) doc.directivesAt? doc.directiveSites :=
  (EnumeratesIn.getElem? doc.definitions).bind fun definition _ =>
    definition.enumeratesIn_directiveSites

/-! ### Repeated directives -/

/-- The violation reports that the directive occurs again. -/
def Violation.repeats (name : String) : Violation → Bool
  | .directiveNotUnique directive _ => directive = name
  | _ => false

section Repeated

variable {schema : Schema} {name : String} {directive : DirectiveDef}

/-- A directive is reported as repeated if it has the name and if the name occurs before. -/
theorem countP_repeats_directiveFindings (defined : schema.directive? name = some directive)
    (once : directive.repeatable = false) (doc : Document) (location : DirectiveLocation)
    (earlier : List DirectiveUse) (d : DirectiveUse) :
    (directiveFindings schema doc location earlier d).countP (Violation.repeats name) =
      if d.name = name ∧ name ∈ earlier.map (·.name) then 1 else 0 := by
  have misplaced (locations : List DirectiveLocation) (place : Place) :
      (if location ∈ locations then [] else
        [Violation.directiveMisplaced d.name location place]).countP
          (Violation.repeats name) = 0 := by
    split
    · rfl
    · rfl
  by_cases same : d.name = name
  · subst same
    rw [directiveFindings, defined]
    simp only [List.countP_append, misplaced, once]
    by_cases occurs : ∃ e ∈ earlier, e.name = d.name
    · simp [occurs, Violation.repeats]
    · simp [occurs]
  · cases found : schema.directive? d.name with
    | none => simp [directiveFindings, found, same, Violation.repeats]
    | some other =>
        simp only [directiveFindings, found, List.countP_append, misplaced, same, false_and,
          if_false]
        split
        · simp [Violation.repeats, same]
        · rfl

/-- Of a directive that is not repeatable, all occurrences in a list but the first are
reported as repeated. -/
theorem countP_repeats_siteFindings (defined : schema.directive? name = some directive)
    (once : directive.repeatable = false) (doc : Document) (site : DirectiveSite) :
    (siteFindings schema doc site).countP (Violation.repeats name) =
      (site.directives.map (·.name)).count name - 1 := by
  obtain ⟨location, directives⟩ := site
  show (withEarlier (directiveFindings schema doc location) [] directives).countP _ = _
  -- Along the list from its end, since a directive is compared with those before it.
  induction directives using List.reverseRecOn with
  | nil => rfl
  | append_singleton before d ih =>
      rw [withEarlier_concat, List.countP_append, ih, List.nil_append,
        countP_repeats_directiveFindings defined once, List.map_append, List.count_append,
        List.map_singleton, List.count_singleton]
      by_cases same : d.name = name
      · simp only [same, true_and, beq_self_eq_true, if_true, ← List.count_pos_iff]
        split <;> omega
      · simp [same]

end Repeated

/-- **Directives are reported list by list.**  The lists are those at all addresses of the
document, in the order of addresses.  In each list, a directive is reported in view of those
before it: that it is not supported, or else that it is misplaced and that it is not unique.
Of a directive that is not repeatable, all occurrences in a list but the first are reported
as not unique. -/
theorem validate_reports_directives (capacity : Nat) (schema : Schema) (doc : Document) :
    EnumeratesIn (Prod.Lex (· < ·) (List.Lex (· < ·))) doc.directivesAt? doc.directiveSites ∧
      ((Validator.ofConfig ⟨capacity, [.directivesAreValid]⟩).validate schema doc).1 =
        doc.directiveSites.flatMap (fun site =>
          withEarlier (directiveFindings schema doc site.location) [] site.directives) ∧
      ∀ site ∈ doc.directiveSites, ∀ name directive, schema.directive? name = some directive →
        directive.repeatable = false →
        (withEarlier (directiveFindings schema doc site.location) [] site.directives).countP
            (Violation.repeats name) =
          (site.directives.map (·.name)).count name - 1 := by
  refine ⟨doc.enumeratesIn_directiveSites, Validator.validate_single .., ?_⟩
  intro site _ name directive defined once
  exact countP_repeats_siteFindings defined once doc site

/-- Operations of every kind and a fragment are skipped, where they cannot be, and a field
three times, where it can be once.  The lists are counted apart. -/
theorem validate_reports_directives_skip :
    let schema : Schema := ⟨.empty, .ofList [("skip", .skip)], "Query", none, none⟩
    let skip (line column : Nat) : DirectiveUse := ⟨⟨line, column⟩, "skip", []⟩
    let site : DirectiveSite := ⟨.field, [skip 1 17, skip 1 23, skip 1 29]⟩
    let field : SelectionSet := .field ⟨⟨1, 15⟩, none, "a", [], site.directives⟩ .nil .nil
    let doc : Document := ⟨[.operation ⟨⟨1, 1⟩, .query, none, [], [skip 1 7], field⟩,
      .operation ⟨⟨2, 1⟩, .mutation, none, [], [skip 2 10], .nil⟩,
      .operation ⟨⟨3, 1⟩, .subscription, none, [], [skip 3 14], .nil⟩,
      .fragment ⟨⟨4, 1⟩, "F", "Query", [skip 4 21], .nil⟩], none⟩
    site ∈ doc.directiveSites ∧ schema.directive? "skip" = some .skip ∧
      DirectiveDef.skip.repeatable = false ∧
      (withEarlier (directiveFindings schema doc site.location) [] site.directives).countP
        (Violation.repeats "skip") = 2 ∧
      ((Validator.ofConfig ⟨0, [.directivesAreValid]⟩).validate schema doc).1 =
        [.directiveMisplaced "skip" .query (doc.place ⟨1, 7⟩),
          .directiveNotUnique "skip" (doc.place ⟨1, 23⟩),
          .directiveNotUnique "skip" (doc.place ⟨1, 29⟩),
          .directiveMisplaced "skip" .mutation (doc.place ⟨2, 10⟩),
          .directiveMisplaced "skip" .subscription (doc.place ⟨3, 14⟩),
          .directiveMisplaced "skip" .fragmentDefinition (doc.place ⟨4, 21⟩)] := by
  intro schema skip site field doc
  have mem : site ∈ doc.directiveSites := .tail _ (.head _)
  obtain ⟨-, reported, counted⟩ := validate_reports_directives 0 schema doc
  exact ⟨mem, rfl, rfl, counted site mem "skip" .skip rfl rfl, reported⟩

end GraphQLStatics
