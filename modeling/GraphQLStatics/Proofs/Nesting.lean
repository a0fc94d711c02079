import GraphQLStatics.Proofs.Enumeration
import GraphQLStatics.Proofs.SpreadGraph

/-!
# Selections at any depth

A selection has an address within a selection set: the index of an outermost
selection, the index of a selection right below that one, and so on.  What
stands at an address, and on which type it is made, is found by going down one
index at a time.  The traversals of a document give what stands at each address
once.

## Main Definitions

* `SelectionSet.at?`: the selection at an address
* `SelectionSet.visitAt?`: the selection at an address with its scope
* `SelectionSet.spreadAt?`: the spread at an address
* `Selection.written`: the arguments of a selection as they are written
* `SelectionSet.visited`: the selections that a walk comes to
* `Document.SpreadsTo`: a fragment can be reached by following spreads

## Main Statements

* `SelectionSet.enumeratesIn_walk`: the walk along a selection set, in order
* `SelectionSet.directiveSites_eq_map_preorder`: directives are those of selections
* `SelectionSet.enumerates_spreads`: the spreads at any depth
* `traversals_agree`: walks, spreads, directives and arguments side by side
* `Document.spreadsTo_iff_reaches`: following spreads is reaching a name
-/

namespace GraphQLStatics

/-! ### Addresses -/

/-- The selections right below a selection. -/
def Selection.sub : Selection → SelectionSet
  | .field _ sub => sub
  | .spread _ => .nil
  | .inline _ sub => sub

/-- The type that the selections right below a selection are made on. -/
def Schema.subScope (schema : Schema) (scope : Option TypeDef) : Selection → Option TypeDef
  | .field f _ => schema.fieldScope scope f
  | .spread _ => none
  | .inline f _ => schema.inlineScope scope f

namespace SelectionSet

/-- The selection at an address.  There is none at the empty address. -/
def at? (set : SelectionSet) : List Nat → Option Selection
  | [] => none
  | [i] => set.toList[i]?
  | i :: j :: path => (set.toList[i]?).bind fun outer => outer.sub.at? (j :: path)

/-- The selection at an address, with the type that it is made on. -/
def visitAt? (schema : Schema) (set : SelectionSet) (scope : Option TypeDef) :
    List Nat → Option Visit
  | [] => none
  | [i] => (set.toList[i]?).map fun s => ⟨s, scope⟩
  | i :: j :: path =>
    (set.toList[i]?).bind fun outer =>
      outer.sub.visitAt? schema (schema.subScope scope outer) (j :: path)

/-- Scopes aside, a visit is a selection. -/
theorem visitAt?_map_selection (schema : Schema) (set : SelectionSet) (scope : Option TypeDef)
    (path : List Nat) :
    (set.visitAt? schema scope path).map (·.selection) = set.at? path := by
  induction path generalizing set scope with
  | nil => rfl
  | cons i rest ih =>
      cases rest with
      | nil =>
          rw [visitAt?, at?, Option.map_map]
          exact Option.map_id'
      | cons j rest =>
          rw [visitAt?, at?]
          cases set.toList[i]? with
          | none => rfl
          | some outer => exact ih outer.sub _

theorem toList_cons (head : Selection) (rest : SelectionSet) :
    (cons head rest).toList = head :: rest.toList := by
  cases head <;> rfl

theorem visitAt?_cons_zero (schema : Schema) (head : Selection) (rest : SelectionSet)
    (scope : Option TypeDef) : (cons head rest).visitAt? schema scope [0] = some ⟨head, scope⟩ := by
  rw [visitAt?, toList_cons]
  rfl

theorem visitAt?_cons_below (schema : Schema) (head : Selection) (rest : SelectionSet)
    (scope : Option TypeDef) (j : Nat) (path : List Nat) :
    (cons head rest).visitAt? schema scope (0 :: j :: path) =
      head.sub.visitAt? schema (schema.subScope scope head) (j :: path) := by
  rw [visitAt?, toList_cons]
  rfl

theorem visitAt?_cons_after (schema : Schema) (head : Selection) (rest : SelectionSet)
    (scope : Option TypeDef) (i : Nat) (path : List Nat) :
    (cons head rest).visitAt? schema scope ((i + 1) :: path) =
      rest.visitAt? schema scope (i :: path) := by
  cases path with
  | nil => rw [visitAt?, visitAt?, toList_cons, List.getElem?_cons_succ]
  | cons j path => rw [visitAt?, visitAt?, toList_cons, List.getElem?_cons_succ]

/-- The walk along a selection, what is below it and what comes after it. -/
theorem enumeratesIn_cons {schema : Schema} {scope : Option TypeDef} (head : Selection)
    {rest : SelectionSet} {below after : List Visit}
    (belowHead : EnumeratesIn (List.Lex (· < ·))
      (head.sub.visitAt? schema (schema.subScope scope head)) below)
    (afterHead : EnumeratesIn (List.Lex (· < ·)) (rest.visitAt? schema scope) after) :
    EnumeratesIn (List.Lex (· < ·)) ((cons head rest).visitAt? schema scope)
      (⟨head, scope⟩ :: (below ++ after)) := by
  have here : EnumeratesIn (fun _ _ => False) (fun _ : Unit => some (Visit.mk head scope))
      [⟨head, scope⟩] :=
    .singleton () rfl fun _ _ => rfl
  refine (here.sum (belowHead.sum afterHead)).rename
    (Sum.elim (fun _ => [0]) (Sum.elim (List.cons 0) fun path => path.modifyHead (· + 1)))
    ?_ ?_ ?_
  · intro p q live live' isBefore
    cases isBefore with
    | inl impossible => exact impossible.elim
    | sep u p =>
        rcases p with (_ | ⟨j, path⟩) | (_ | ⟨j, path⟩)
        · cases live'
        · exact .cons .nil
        · cases live'
        · exact .rel (Nat.succ_pos j)
    | inr isBefore =>
        cases isBefore with
        | inl isBefore => exact .cons isBefore
        | sep path q =>
            obtain _ | ⟨j, path'⟩ := q
            · cases live'
            · exact .rel (Nat.succ_pos j)
        | inr isBefore =>
            cases isBefore with
            | nil => cases live
            | rel less => exact .rel (Nat.succ_lt_succ less)
            | cons isBefore => exact .cons isBefore
  · rintro (⟨⟩ | (_ | ⟨i, path⟩) | (_ | ⟨i, path⟩)) live
    · exact visitAt?_cons_zero schema head rest scope
    · cases live
    · exact visitAt?_cons_below schema head rest scope i path
    · cases live
    · exact visitAt?_cons_after schema head rest scope i path
  · rintro (_ | ⟨_ | i, _ | ⟨j, path⟩⟩) live
    · cases live
    · exact ⟨.inl (), rfl, rfl⟩
    · rw [visitAt?_cons_below] at live
      exact ⟨.inr (.inl (j :: path)), live, rfl⟩
    · rw [visitAt?_cons_after] at live
      exact ⟨.inr (.inr [i]), live, rfl⟩
    · rw [visitAt?_cons_after] at live
      exact ⟨.inr (.inr (i :: j :: path)), live, rfl⟩

/-- **The walk is complete.**  It gives the selection at each address once, with
the type that it is made on.  Addresses come in lexicographic order, each before
those that it begins. -/
theorem enumeratesIn_walk (schema : Schema) (set : SelectionSet) (scope : Option TypeDef) :
    EnumeratesIn (List.Lex (· < ·)) (set.visitAt? schema scope) (set.walk schema scope) := by
  induction set generalizing scope with
  | nil =>
      refine .nil ?_
      rintro (_ | ⟨i, _ | ⟨j, path⟩⟩) <;> rfl
  | field f sub rest ihSub ihRest =>
      exact enumeratesIn_cons (.field f sub) (ihSub _) (ihRest scope)
  | spread f rest ihRest =>
      refine enumeratesIn_cons (.spread f) (.nil ?_) (ihRest scope)
      rintro (_ | ⟨i, _ | ⟨j, path⟩⟩) <;> rfl
  | inline f sub rest ihSub ihRest =>
      exact enumeratesIn_cons (.inline f sub) (ihSub _) (ihRest scope)

theorem enumerates_walk (schema : Schema) (set : SelectionSet) (scope : Option TypeDef) :
    Enumerates (set.visitAt? schema scope) (set.walk schema scope) :=
  (set.enumeratesIn_walk schema scope).enumerates (List.lex_irrefl Nat.lt_irrefl)

/-- Scopes aside, the walk gives every selection before those below it. -/
theorem walk_map_selection (schema : Schema) (set : SelectionSet) (scope : Option TypeDef) :
    (set.walk schema scope).map (·.selection) = set.preorder := by
  induction set generalizing scope with
  | nil => rfl
  | field f sub rest ihSub ihRest =>
      simp only [walk, preorder, List.map_cons, List.map_append, ihSub, ihRest]
  | spread f rest ihRest => simp only [walk, preorder, List.map_cons, ihRest]
  | inline f sub rest ihSub ihRest =>
      simp only [walk, preorder, List.map_cons, List.map_append, ihSub, ihRest]

/-- Every selection comes before those below it and after those before it. -/
theorem enumeratesIn_preorder (set : SelectionSet) :
    EnumeratesIn (List.Lex (· < ·)) set.at? set.preorder := by
  -- Any schema will do, since selections do not depend on it.
  have selections :=
    (enumeratesIn_walk ⟨.empty, .empty, "", none, none⟩ set none).map (·.selection)
  simpa only [walk_map_selection, visitAt?_map_selection] using selections

theorem enumerates_preorder (set : SelectionSet) : Enumerates set.at? set.preorder :=
  set.enumeratesIn_preorder.enumerates (List.lex_irrefl Nat.lt_irrefl)

end SelectionSet

/-! ### Directives -/

/-- Where the directives of a selection stand. -/
def Selection.location : Selection → DirectiveLocation
  | .field _ _ => .field
  | .spread _ => .fragmentSpread
  | .inline _ _ => .inlineFragment

/-- The directives of a selection with their location. -/
def Selection.site (s : Selection) : DirectiveSite :=
  ⟨s.location, s.directives⟩

theorem SelectionSet.directiveSites_eq_map_preorder (set : SelectionSet) :
    set.directiveSites = set.preorder.map Selection.site := by
  induction set with
  | nil => rfl
  | field f sub rest ihSub ihRest =>
      rw [directiveSites, preorder, List.map_cons, List.map_append, ihSub, ihRest]
      rfl
  | spread f rest ihRest =>
      rw [directiveSites, preorder, List.map_cons, ihRest]
      rfl
  | inline f sub rest ihSub ihRest =>
      rw [directiveSites, preorder, List.map_cons, List.map_append, ihSub, ihRest]
      rfl

/-! ### Spreads -/

/-- The spread that a selection is. -/
def Selection.spread? : Selection → Option SpreadUse
  | .spread f => some f
  | .field _ _ | .inline _ _ => none

namespace SelectionSet

/-- The spread at an address. -/
def spreadAt? (set : SelectionSet) (path : List Nat) : Option SpreadUse :=
  (set.at? path).bind Selection.spread?

theorem spreads_eq_filterMap_preorder (set : SelectionSet) :
    set.spreads = set.preorder.filterMap Selection.spread? := by
  induction set with
  | nil => rfl
  | field f sub rest ihSub ihRest =>
      rw [spreads, preorder, List.filterMap_cons_none (by rfl), List.filterMap_append, ihSub,
        ihRest]
  | spread f rest ihRest =>
      rw [spreads, preorder, List.filterMap_cons_some (by rfl), ihRest]
  | inline f sub rest ihSub ihRest =>
      rw [spreads, preorder, List.filterMap_cons_none (by rfl), List.filterMap_append, ihSub,
        ihRest]

/-- The spreads of a selection set are those that stand at its addresses. -/
theorem enumerates_spreads (set : SelectionSet) : Enumerates set.spreadAt? set.spreads := by
  rw [spreads_eq_filterMap_preorder]
  exact set.enumerates_preorder.filterMap Selection.spread?

theorem mem_spreads {set : SelectionSet} {f : SpreadUse} :
    f ∈ set.spreads ↔ ∃ path, set.spreadAt? path = some f :=
  set.enumerates_spreads.mem_iff

/-- The address of the spread with an index, where spreads are counted in
document order. -/
noncomputable def spreadAddress (set : SelectionSet) (i : Nat) : List Nat :=
  (set.enumerates_spreads.exists_places.choose[i]?).getD []

theorem spreadAt?_eq_some_iff {set : SelectionSet} {path : List Nat} {f : SpreadUse} :
    set.spreadAt? path = some f ↔
      ∃ i, set.spreadAddress i = path ∧ set.spreads[i]? = some f := by
  obtain ⟨-, sameLength, found⟩ := set.enumerates_spreads.exists_places.choose_spec
  rw [found]
  refine exists_congr fun i => and_congr_left fun isListed => ?_
  have inPlaces := (List.getElem?_eq_some_iff.mp isListed).1
  rw [← sameLength] at inPlaces
  rw [spreadAddress, List.getElem?_eq_getElem inPlaces, Option.getD_some, Option.some.injEq]

/-- Different spreads have different addresses. -/
theorem spreadAddress_inj {set : SelectionSet} {i j : Nat} (hi : i < set.spreads.length)
    (hj : j < set.spreads.length) (same : set.spreadAddress i = set.spreadAddress j) :
    i = j := by
  obtain ⟨nodup, sameLength, -⟩ := set.enumerates_spreads.exists_places.choose_spec
  rw [← sameLength] at hi hj
  rw [spreadAddress, spreadAddress, List.getElem?_eq_getElem hi, List.getElem?_eq_getElem hj,
    Option.getD_some, Option.getD_some] at same
  exact (nodup.getElem_inj_iff).mp same

end SelectionSet

/-! ### Arguments as they are written -/

/-- An argument without what the schema says about it. -/
def ArgumentUse.written (argument : ArgumentUse) : Position × Value :=
  (argument.position, argument.value)

/-- The values of some arguments, with the position of the element that has
them. -/
def writtenArguments (position : Position) (arguments : List (String × Value)) :
    List (Position × Value) :=
  arguments.map fun argument => (position, argument.2)

/-- The arguments of some directives. -/
def writtenInDirectives (ds : List DirectiveUse) : List (Position × Value) :=
  ds.flatMap fun d => writtenArguments d.position d.arguments

/-- The arguments of a selection: those of a field, and then those of its
directives. -/
def Selection.written : Selection → List (Position × Value)
  | .field f _ => writtenArguments f.position f.arguments ++ writtenInDirectives f.directives
  | .spread f => writtenInDirectives f.directives
  | .inline f _ => writtenInDirectives f.directives

theorem argumentUses_map_written (position : Position)
    (parameters : Option (OrderedMap Parameter)) (arguments : List (String × Value)) :
    (argumentUses position parameters arguments).map ArgumentUse.written =
      writtenArguments position arguments := by
  rw [argumentUses, List.map_map]
  rfl

theorem directiveArguments_map_written (schema : Schema) (ds : List DirectiveUse) :
    (directiveArguments schema ds).map ArgumentUse.written = writtenInDirectives ds := by
  rw [directiveArguments, List.map_flatMap, writtenInDirectives]
  exact List.flatMap_congr fun d _ => argumentUses_map_written d.position _ d.arguments

theorem Visit.arguments_map_written (schema : Schema) (visit : Visit) :
    (visit.arguments schema).map ArgumentUse.written = visit.selection.written := by
  obtain ⟨selection, scope⟩ := visit
  cases selection with
  | field f sub =>
      rw [Visit.arguments, List.map_append, argumentUses_map_written,
        directiveArguments_map_written]
      rfl
  | spread f => exact directiveArguments_map_written schema f.directives
  | inline f sub => exact directiveArguments_map_written schema f.directives

/-- The arguments within a selection set are those of its selections, whatever
the schema says about them. -/
theorem SelectionSet.arguments_map_written (schema : Schema) (set : SelectionSet)
    (scope : Option TypeDef) :
    (set.arguments schema scope).map ArgumentUse.written =
      set.preorder.flatMap Selection.written := by
  rw [SelectionSet.arguments, List.map_flatMap, ← set.walk_map_selection schema scope,
    List.flatMap_map]
  exact List.flatMap_congr fun visit _ => visit.arguments_map_written schema

/-! ### The traversals side by side -/

/-- The selections that a walk comes to, in turn. -/
def SelectionSet.visited (schema : Schema) (set : SelectionSet) (scope : Option TypeDef) :
    List Selection :=
  (set.walk schema scope).map (·.selection)

/-- **The traversals agree.**  A walk comes to the selection at each address once, in
the order of addresses, whatever the schema and the scope are.  Among the selections
that it comes to, the spreads are those that are collected, the directives with the
location of their selection are those that are gone through, and so are the arguments
of fields with those of the directives after them, all in this order. -/
theorem traversals_agree (schema : Schema) (set : SelectionSet) (scope : Option TypeDef) :
    (∀ schema' scope', set.visited schema' scope' = set.visited schema scope) ∧
    EnumeratesIn (List.Lex (· < ·)) set.at? (set.visited schema scope) ∧
    set.spreads = (set.visited schema scope).filterMap Selection.spread? ∧
    set.directiveSites = (set.visited schema scope).map Selection.site ∧
    (set.arguments schema scope).map ArgumentUse.written =
      (set.visited schema scope).flatMap Selection.written := by
  have inOrder : ∀ schema' scope', set.visited schema' scope' = set.preorder :=
    fun schema' scope' => set.walk_map_selection schema' scope'
  refine ⟨fun schema' scope' => ?_, ?_, ?_, ?_, ?_⟩
  · rw [inOrder, inOrder]
  · rw [inOrder]
    exact set.enumeratesIn_preorder
  · rw [inOrder]
    exact set.spreads_eq_filterMap_preorder
  · rw [inOrder]
    exact set.directiveSites_eq_map_preorder
  · rw [inOrder]
    exact set.arguments_map_written schema scope

/-! ### Reaching fragments -/

namespace Document

/-- The fragment `name` is spread at some address of the selection set, or at
some address of the last definition of a fragment that is spread, and so on. -/
inductive SpreadsTo (doc : Document) : SelectionSet → String → Prop
  | here {set : SelectionSet} {path : List Nat} {f : SpreadUse}
      (spread : set.spreadAt? path = some f) : SpreadsTo doc set f.fragment
  | through {set : SelectionSet} {path : List Nat} {f : SpreadUse} {frag : Fragment}
      {name : String} (spread : set.spreadAt? path = some f)
      (found : doc.lastFragment? f.fragment = some frag)
      (rest : SpreadsTo doc frag.selections name) : SpreadsTo doc set name

/-- Following spreads is reaching a name. -/
theorem spreadsTo_iff_reaches {doc : Document} {set : SelectionSet} {name : String} :
    doc.SpreadsTo set name ↔ doc.Reaches set name := by
  constructor
  · intro spreadsTo
    induction spreadsTo with
    | here spread =>
        exact ⟨_, List.mem_map_of_mem (SelectionSet.mem_spreads.mpr ⟨_, spread⟩), .refl⟩
    | through spread found _ ih =>
        refine ⟨_, List.mem_map_of_mem (SelectionSet.mem_spreads.mpr ⟨_, spread⟩), ?_⟩
        exact (leads_star_iff_of_defined found).mpr (Or.inr ih)
  · rintro ⟨first, mem, leads⟩
    induction leads using Relation.ReflTransGen.head_induction_on generalizing set with
    | refl =>
        obtain ⟨f, isSpread, rfl⟩ := List.mem_map.mp mem
        obtain ⟨path, spread⟩ := SelectionSet.mem_spreads.mp isSpread
        exact .here spread
    | head edge _ ih =>
        obtain ⟨frag, found, isNext⟩ := edge
        obtain ⟨f, isSpread, rfl⟩ := List.mem_map.mp mem
        obtain ⟨path, spread⟩ := SelectionSet.mem_spreads.mp isSpread
        exact .through spread found (ih isNext)

instance (doc : Document) (set : SelectionSet) (name : String) :
    Decidable (doc.SpreadsTo set name) :=
  decidable_of_iff (name ∈ (reachable doc set (Workspace.fresh.bindTo doc).clearVisited).2.visited)
    ((mem_visited_reachable_clearVisited set (Workspace.boundTo_bindTo _ doc) name).trans
      spreadsTo_iff_reaches.symm)

end Document

end GraphQLStatics
