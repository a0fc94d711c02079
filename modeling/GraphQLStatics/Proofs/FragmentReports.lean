import GraphQLStatics.Proofs.FragmentVerdict
import GraphQLStatics.Proofs.Nesting
import GraphQLStatics.Proofs.PoolIsolation

/-!
# What is reported about fragments

The rule about fragments checks their names, the selections of the document,
whether every fragment is used, and whether spreads form a cycle.  What a
validator reports is the outcome of these parts in turn, and the kind of a
violation tells which part it comes from.  This file says what the last two
parts report.

Both of them go along spreads, one with a queue and one with a stack, for as
many steps as a bound allows.  `ChecksFragments` is the rule without these
bounds, so that it relates workspaces only if both loops stop by themselves.

## Main Definitions

* `FragmentPart`, `Violation.fragmentPart?`: the parts of the rule
* `ChecksFragments`: the rule with loops that stop by themselves

## Main Statements

* `filter_fragmentFindings`: what comes from a part of the rule
* `checksFragments`: the rule comes to its end
* `validate_reports_unused_fragments`: fragments that no operation reaches
* `validate_reports_fragment_cycles`: cycles of spreads
-/

namespace GraphQLStatics

/-! ### The parts of the rule -/

/-- The parts of the rule about fragments. -/
inductive FragmentPart where
  | names
  | selections
  | usage
  | cycles
  deriving DecidableEq, Repr

/-- The part of the rule about fragments that a violation comes from. -/
def Violation.fragmentPart? : Violation → Option FragmentPart
  | .fragmentNameNotUnique _ _ => some .names
  | .conditionUnknown _ _ | .conditionNotComposite _ _ | .spreadTargetUndefined _ _
  | .spreadNotPossible _ _ _ _ => some .selections
  | .fragmentNotUsed _ _ => some .usage
  | .fragmentCycle _ _ _ => some .cycles
  | _ => none

/-- What a part of the rule finds. -/
def FragmentPart.found (schema : Schema) (doc : Document) : FragmentPart → List Violation
  | .names => withEarlier (nameFindings doc) [] doc.fragments
  | .selections =>
    (doc.fragments.flatMap fun frag =>
      conditionFindings schema doc frag.position frag.condition) ++
    (doc.walk schema).flatMap (visitFragmentFindings schema doc)
  | .usage => doc.fragments.flatMap (unusedFindings doc)
  | .cycles => cycleFindings doc

/-- The kind of a violation tells the part that it comes from. -/
theorem fragmentPart?_of_mem_found {part : FragmentPart} {schema : Schema} {doc : Document}
    {v : Violation} (mem : v ∈ part.found schema doc) : v.fragmentPart? = some part := by
  cases part with
  | names =>
      obtain ⟨earlier, frag, later, -, mem⟩ := mem_withEarlier.mp mem
      unfold nameFindings at mem
      split at mem
      · rw [List.mem_singleton.mp mem]
        rfl
      · cases mem
  | selections =>
      rcases List.mem_append.mp mem with mem | mem
      · obtain ⟨frag, -, mem⟩ := List.mem_flatMap.mp mem
        exact of_mem_conditionFindings (P := (·.fragmentPart? = some .selections)) mem rfl rfl
      · obtain ⟨visit, -, mem⟩ := List.mem_flatMap.mp mem
        exact of_mem_visitFragmentFindings (P := (·.fragmentPart? = some .selections)) mem
          (fun _ _ => rfl) (fun _ _ => rfl) (fun _ _ => rfl) fun _ _ _ _ => rfl
  | usage =>
      obtain ⟨frag, -, mem⟩ := List.mem_flatMap.mp mem
      unfold unusedFindings at mem
      split at mem
      · cases mem
      · rw [List.mem_singleton.mp mem]
        rfl
  | cycles =>
      obtain ⟨site, closes⟩ := exists_closes_of_mem_checkCycles mem
      cases closes
      rfl

theorem FragmentPart.filter_found (part other : FragmentPart) (schema : Schema)
    (doc : Document) :
    (part.found schema doc).filter (·.fragmentPart? = some other) =
      if part = other then part.found schema doc else [] := by
  split
  · next same =>
      refine List.filter_eq_self.mpr ?_
      intro v mem
      simp [fragmentPart?_of_mem_found mem, same]
  · next differ =>
      refine List.filter_eq_nil_iff.mpr ?_
      intro v mem
      simp [fragmentPart?_of_mem_found mem, differ]

/-- **What comes from a part of the rule.**  The violations of a part are those
that it finds. -/
theorem filter_fragmentFindings (part : FragmentPart) (schema : Schema) (doc : Document) :
    (fragmentFindings schema doc).filter (·.fragmentPart? = some part) =
      part.found schema doc := by
  have inTurn : fragmentFindings schema doc =
      FragmentPart.names.found schema doc ++ FragmentPart.selections.found schema doc ++
        FragmentPart.usage.found schema doc ++ FragmentPart.cycles.found schema doc := by
    simp only [fragmentFindings, FragmentPart.found, List.append_assoc]
  rw [inTurn]
  simp only [List.filter_append, FragmentPart.filter_found]
  cases part <;> simp

/-! ### The rule comes to its end -/

/-- Marking from the selection sets of some operations in turn, where every queue
is worked off. -/
inductive MarksUsed (doc : Document) : List Operation → Workspace → Workspace → Prop
  | stop (w : Workspace) : MarksUsed doc [] w w
  | next {op : Operation} {ops : List Operation} {w w' w'' : Workspace}
      {reached : List Fragment} (explores : Explores doc op.selections.spreads w reached w')
      (rest : MarksUsed doc ops w' w'') : MarksUsed doc (op :: ops) w w''

/-- Every queue is worked off. -/
theorem marksUsed_foldl_reachable {doc : Document} (ops : List Operation) {w : Workspace}
    (bound : w.BoundTo doc) :
    MarksUsed doc ops w (ops.foldl (fun w op => (reachable doc op.selections w).2) w) := by
  induction ops generalizing w with
  | nil => exact .stop w
  | cons op rest ih =>
      have bound' := (Workspace.Gains.reachable doc op.selections w).boundTo bound
      exact .next (explores_reachable op.selections bound) (ih bound')

/-- The rule about fragments, from one workspace to another, with loops that stop
by themselves. -/
def ChecksFragments (schema : Schema) (doc : Document) (w w' : Workspace) : Prop :=
  ∃ marked,
    MarksUsed doc doc.operations
      (checkSelections schema doc (checkConditions schema doc (checkNames doc w))).clearVisited
      marked ∧
    Searches doc doc.fragments (doc.fragments.foldl (checkUsed doc) marked) w'

/-- **The rule comes to its end.** -/
theorem checksFragments (schema : Schema) {doc : Document} {w : Workspace}
    (bound : w.BoundTo doc) : ChecksFragments schema doc w (checkFragments schema doc w) := by
  have names := checkNames_gains doc w
  have conditions := names.trans (checkConditions_gains schema (names.boundTo bound))
  have selections := conditions.trans (checkSelections_gains schema (conditions.boundTo bound))
  have usage := selections.trans (checkUsage_gains (selections.boundTo bound))
  exact ⟨_, marksUsed_foldl_reachable doc.operations (selections.boundTo bound),
    searches_foldl_checkCycle doc.fragments (fun _ mem => mem) (usage.boundTo bound)⟩

/-- What a validator with the rule about fragments reports is what the rule leaves in a
workspace that was never used. -/
theorem validate_fragmentsAreValid (capacity : Nat) (schema : Schema) (doc : Document) :
    ((Validator.ofConfig ⟨capacity, [.fragmentsAreValid]⟩).validate schema doc).1 =
      (checkFragments schema doc (Workspace.fresh.bindTo doc)).violations := by
  have added := checkFragments_adds schema (Workspace.boundTo_bindTo Workspace.fresh doc) rfl rfl
  rw [Validator.validate_single, added.violations]
  rfl

/-! ### Fragments that are not used -/

/-- The fragments that are reported, in the order of the document. -/
theorem usage_found (schema : Schema) (doc : Document) :
    FragmentPart.usage.found schema doc =
      (doc.fragments.filter fun frag =>
          ∀ op ∈ doc.operations, ¬ doc.SpreadsTo op.selections frag.name).map
        fun frag => .fragmentNotUsed frag.name (doc.place frag.position) := by
  refine flatMap_eq_map_filter (fun frag => ?_) doc.fragments
  have isUsed : doc.usedNames.contains frag.name = true ↔
      ¬ ∀ op ∈ doc.operations, ¬ doc.SpreadsTo op.selections frag.name := by
    simp [Document.mem_usedNames, Document.spreadsTo_iff_reaches]
  rw [unusedFindings]
  split
  · next used => rw [if_neg (isUsed.mp used)]
  · next notUsed => rw [if_pos (not_not.mp (mt isUsed.mpr notUsed))]

/-- **Fragments are reported if no operation reaches them.**  A validator with
the rule about fragments reports each definition whose name no operation reaches
by spreads, also where a name has several definitions.

What is behind it holds for every selection set, and for all marks that lead to
marked names only: the queue of spreads is worked off, the names that are marked
afterwards are those marked before and those reached, defined or not, and of the
names newly reached those with a definition give it, each of them once. -/
theorem validate_reports_unused_fragments (capacity : Nat) (schema : Schema) (doc : Document) :
    ((Validator.ofConfig ⟨capacity, [.fragmentsAreValid]⟩).validate schema doc).1.filter
        (·.fragmentPart? = some .usage) =
      (doc.fragments.filter fun frag =>
          ∀ op ∈ doc.operations, ¬ doc.SpreadsTo op.selections frag.name).map
        (fun frag => .fragmentNotUsed frag.name (doc.place frag.position)) ∧
    ∀ (set : SelectionSet) (w : Workspace),
      (∀ frag, doc.lastFragment? frag.name = some frag → frag.name ∈ w.visited →
        ∀ name, doc.SpreadsTo frag.selections name → name ∈ w.visited) →
      ∃ reached w', Explores doc set.spreads (w.bindTo doc) reached w' ∧
        reachable doc set (w.bindTo doc) = (reached, w') ∧
        (∀ name, name ∈ w'.visited ↔ name ∈ w.visited ∨ doc.SpreadsTo set name) ∧
        (∀ frag, frag ∈ reached ↔ doc.SpreadsTo set frag.name ∧ frag.name ∉ w.visited ∧
          doc.lastFragment? frag.name = some frag) ∧
        (reached.map (·.name)).Nodup := by
  refine ⟨?_, ?_⟩
  · rw [Validator.validate_single]
    exact (filter_fragmentFindings .usage schema doc).trans (usage_found schema doc)
  · intro set w closed
    have bound := Workspace.boundTo_bindTo w doc
    have closedUpTo : doc.ClosedUpTo [] w.visited := by
      rintro a mem b ⟨frag, found, isSpread⟩
      obtain ⟨-, rfl⟩ := Document.mem_of_lastFragment? found
      exact Or.inl (closed frag found mem b
        (Document.spreadsTo_iff_reaches.mpr ⟨b, isSpread, .refl⟩))
    have marks := marks_reachable set bound closedUpTo
    have marked : ∀ name, name ∈ (reachable doc set (w.bindTo doc)).2.visited ↔
        name ∈ w.visited ∨ doc.SpreadsTo set name := by
      intro name
      rw [marks.mem_after, Document.spreadsTo_iff_reaches]
      rfl
    refine ⟨_, _, explores_reachable set bound, rfl, marked, ?_, marks.nodup_reached⟩
    intro frag
    rw [marks.mem_reached, marked]
    change (_ ∨ _) ∧ frag.name ∉ w.visited ∧ _ ↔ _
    tauto

/-- A query spreads `A`, which has two definitions.  The last one of them spreads
`B` and `Missing`, and `B` spreads `A`.  Nothing spreads `C`, which has two
definitions as well. -/
def sharedSpreads : Document where
  definitions :=
    [.operation ⟨⟨1, 1⟩, .query, none, [], [], .spread ⟨⟨1, 3⟩, "A", []⟩ .nil⟩,
     .fragment ⟨⟨2, 1⟩, "A", "Query", [], .spread ⟨⟨2, 22⟩, "C", []⟩ .nil⟩,
     .fragment ⟨⟨3, 1⟩, "A", "Query", [],
      .inline ⟨⟨3, 22⟩, none, []⟩ (.spread ⟨⟨3, 28⟩, "B", []⟩ .nil)
        (.spread ⟨⟨3, 35⟩, "Missing", []⟩ .nil)⟩,
     .fragment ⟨⟨4, 1⟩, "B", "Query", [], .spread ⟨⟨4, 22⟩, "A", []⟩ .nil⟩,
     .fragment ⟨⟨5, 1⟩, "C", "Query", [], .spread ⟨⟨5, 22⟩, "B", []⟩ .nil⟩,
     .fragment ⟨⟨6, 1⟩, "C", "Query", [], .spread ⟨⟨6, 22⟩, "Absent", []⟩ .nil⟩]
  file := none

/-- Both definitions of `C` are reported, and from the marks that the query
leaves a spread of `C` leads to two more names and gives one definition. -/
theorem validate_reports_unused_fragments_shared :
    let schema : Schema := ⟨.empty, .empty, "Query", none, none⟩
    let w : Workspace := { Workspace.fresh with visited := ["A", "B", "Missing"] }
    let set : SelectionSet := .spread ⟨⟨1, 1⟩, "C", []⟩ (.spread ⟨⟨1, 6⟩, "B", []⟩ .nil)
    ((Validator.ofConfig ⟨0, [.fragmentsAreValid]⟩).validate schema sharedSpreads).1.filter
        (·.fragmentPart? = some .usage) =
      [.fragmentNotUsed "C" ⟨none, ⟨5, 1⟩⟩, .fragmentNotUsed "C" ⟨none, ⟨6, 1⟩⟩] ∧
    (∀ frag, sharedSpreads.lastFragment? frag.name = some frag → frag.name ∈ w.visited →
      ∀ name, sharedSpreads.SpreadsTo frag.selections name → name ∈ w.visited) ∧
    ∃ reached w', Explores sharedSpreads set.spreads (w.bindTo sharedSpreads) reached w' ∧
      reached.map (·.position) = [⟨6, 1⟩] ∧ "Absent" ∈ w'.visited := by
  intro schema w set
  have closed : ∀ frag, sharedSpreads.lastFragment? frag.name = some frag →
      frag.name ∈ w.visited →
      ∀ name, sharedSpreads.SpreadsTo frag.selections name → name ∈ w.visited := by
    have marked : ∀ start ∈ w.visited, ∀ frag ∈ sharedSpreads.lastFragment? start,
        ∀ name ∈ (reachable sharedSpreads frag.selections
          (Workspace.fresh.bindTo sharedSpreads).clearVisited).2.visited, name ∈ w.visited := by
      decide
    intro frag found mem name spreadsTo
    refine marked frag.name mem frag found name ?_
    rw [mem_visited_reachable_clearVisited _ (Workspace.boundTo_bindTo _ sharedSpreads)]
    exact Document.spreadsTo_iff_reaches.mp spreadsTo
  obtain ⟨reported, marking⟩ := validate_reports_unused_fragments 0 schema sharedSpreads
  obtain ⟨reached, w', explores, result, -, -, -⟩ := marking set w closed
  have positions : (reachable sharedSpreads set (w.bindTo sharedSpreads)).1.map (·.position) =
      [⟨6, 1⟩] := by decide
  have absent : "Absent" ∈ (reachable sharedSpreads set (w.bindTo sharedSpreads)).2.visited := by
    decide
  rw [result] at positions absent
  refine ⟨reported.trans ?_, closed, reached, w', explores, positions, absent⟩
  decide

/-! ### Cycles -/

/-- **The search for cycles is exact.**  A validator with the rule about
fragments comes to its end.  It reports a cycle if and only if spreads form one.
The reports name spreads that close a cycle, none of them twice, and without
these spreads there is no cycle. -/
theorem validate_reports_fragment_cycles (capacity : Nat) (schema : Schema) (doc : Document) :
    let reported :=
      ((Validator.ofConfig ⟨capacity, [.fragmentsAreValid]⟩).validate schema doc).1
    let cycles := reported.filter (·.fragmentPart? = some .cycles)
    (∃ w, ChecksFragments schema doc (Workspace.fresh.bindTo doc) w ∧ w.violations = reported) ∧
      (cycles ≠ [] ↔ doc.HasCycle []) ∧
      ∃ cut : List SpreadSite, cut.Nodup ∧ List.Forall₂ doc.Closes cut cycles ∧
        ¬ doc.HasCycle cut := by
  intro reported cycles
  have found : cycles = (checkCycles doc (Workspace.fresh.bindTo doc)).violations := by
    simp only [cycles, reported, Validator.validate_single]
    exact filter_fragmentFindings .cycles schema doc
  refine ⟨⟨_, checksFragments schema (Workspace.boundTo_bindTo _ doc),
    (validate_fragmentsAreValid capacity schema doc).symm⟩, ?_, ?_⟩
  · rw [found, doc.hasCycle_nil_iff, ne_eq, checkCycles_violations_eq_nil_iff]
  · rw [found]
    exact exists_traced_checkCycles doc

end GraphQLStatics
