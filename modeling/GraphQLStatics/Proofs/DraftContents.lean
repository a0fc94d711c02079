import GraphQLStatics.Proofs.Earlier
import GraphQLStatics.Proofs.MapEntries
import GraphQLStatics.Proofs.SchemaSources

/-!
# What a draft holds

A draft that has taken in definitions holds nothing but them: the built-in
scalars and then the types in order, the directives in order, and for each kind
of operation the first root type that was claimed (`Draft.Holds`).  A definition
is refused if something of its name is held already.  What is wrong with it can
therefore be said in view of the earlier definitions, without a draft
(`definitionFaults`).

## Main Definitions

* `typesOf`, `directivesOf`, `claimsOf`: the definitions among some sources
* `declaredTypes`, `declaredDirectives`: the types and directives by name
* `definitionFaults`: what is wrong with a definition
* `Draft.Holds`

## Main Statements

* `Draft.Holds.meets_addSource`: taking in one definition
* `meets_foldlM_addSource`: taking in definitions one after another
-/

namespace GraphQLStatics

/-! ### Definitions among the sources -/

namespace Source

/-- The definition of a type that a source is, with its path. -/
def type? (s : Source) : Option (String × TypeDefinition) :=
  match s.definition with
  | .type definition => some (s.path, definition)
  | _ => none

/-- The definition of a directive that a source is, with its path. -/
def directive? (s : Source) : Option (String × DirectiveDefinition) :=
  match s.definition with
  | .directive definition => some (s.path, definition)
  | _ => none

/-- The root type that a source claims for a kind of operation. -/
def claim? (kind : OperationKind) (s : Source) : Option RootClaim :=
  match s.definition with
  | .roots block =>
    let named := match kind with
      | .query => block.query
      | .mutation => block.mutation
      | .subscription => block.subscription
    named.map fun typeName => ⟨typeName, ⟨some s.path, block.position⟩⟩
  | _ => none

theorem claim?_roots (kind : OperationKind) (path : String) (block : RootBlock) :
    claim? kind ⟨path, .roots block⟩ =
      (block.root kind).map fun typeName => ⟨typeName, ⟨some path, block.position⟩⟩ := by
  cases kind <;> rfl

end Source

/-- The definitions of types, in order. -/
def typesOf (sources : List Source) : List (String × TypeDefinition) :=
  sources.filterMap Source.type?

/-- The definitions of directives, in order. -/
def directivesOf (sources : List Source) : List (String × DirectiveDefinition) :=
  sources.filterMap Source.directive?

/-- The root types claimed for a kind of operation, in order. -/
def claimsOf (kind : OperationKind) (sources : List Source) : List RootClaim :=
  sources.filterMap (Source.claim? kind)

/-- The names of the built-in scalars. -/
def scalarNames : List String :=
  ["Boolean", "Float", "ID", "Int", "String"]

/-- The names of the built-in directives. -/
def ownDirectiveNames : List String :=
  ["skip", "include", "deprecated", "specifiedBy"]

/-- The built-in scalars by name. -/
def builtInTypes : List (String × TypeDef) :=
  [("Boolean", .builtIn .boolean), ("Float", .builtIn .float), ("ID", .builtIn .id),
    ("Int", .builtIn .int), ("String", .builtIn .string)]

theorem mem_builtInTypes {e : String × TypeDef} :
    e ∈ builtInTypes ↔ ∃ scalar : BuiltInScalar, e = (scalar.name, .builtIn scalar) := by
  constructor
  · intro mem
    have listed : e ∈ BuiltInScalar.all.map fun s => (s.name, TypeDef.builtIn s) := mem
    obtain ⟨scalar, -, same⟩ := List.mem_map.mp listed
    exact ⟨scalar, same.symm⟩
  · rintro ⟨scalar, rfl⟩
    cases scalar <;> simp [builtInTypes, BuiltInScalar.name, BuiltInScalar.kind, TypeKind.name]

theorem DirectiveDef.isBuiltInName_iff {name : String} :
    DirectiveDef.isBuiltInName name = true ↔ name ∈ ownDirectiveNames := by
  have names : ownDirectiveNames = DirectiveDef.builtIns.map (·.name) := rfl
  rw [names, List.mem_map, isBuiltInName, List.any_eq_true]
  simp only [decide_eq_true_eq]

/-- The built-in scalars, and then the types as they are defined, by name. -/
def declaredTypes (sources : List Source) : List (String × TypeDef) :=
  builtInTypes ++ (typesOf sources).map fun t => (t.2.name, .ofDefinition t.1 t.2)

/-- The directives as they are defined, by name. -/
def declaredDirectives (sources : List Source) : List (String × DirectiveDef) :=
  (directivesOf sources).map fun d => (d.2.name, .ofDefinition d.1 d.2)

theorem filterMap_concat {α β : Type} (f : α → Option β) (l : List α) (x : α) :
    (l ++ [x]).filterMap f = l.filterMap f ++ (f x).toList := by
  rw [List.filterMap_append, List.filterMap_cons, List.filterMap_nil]
  cases f x with
  | none => rfl
  | some y => rfl

/-! ### What is wrong with a definition -/

/-- A root type that is claimed again. -/
def claimFaults (earlier : List Source) (path : String) (block : RootBlock)
    (kind : OperationKind) : List SchemaFailure :=
  match Source.claim? kind ⟨path, .roots block⟩, (claimsOf kind earlier).head? with
  | some _, some first => [.duplicateRoot kind first.place ⟨some path, block.position⟩]
  | _, _ => []

/-- A type whose name is taken. -/
def typeFaults (earlier : List Source) (path : String) (definition : TypeDefinition) :
    List SchemaFailure :=
  match (declaredTypes earlier).lookup definition.name with
  | some first =>
    [.duplicateType definition.name first.origin (.source ⟨some path, definition.position⟩)]
  | none => []

/-- A directive whose name is built in or taken. -/
def directiveFaults (earlier : List Source) (path : String)
    (definition : DirectiveDefinition) : List SchemaFailure :=
  if definition.name ∈ ownDirectiveNames then
    [.builtInDirective definition.name ⟨some path, definition.position⟩]
  else
    match (declaredDirectives earlier).lookup definition.name with
    | some first =>
      [.duplicateDirective definition.name first.origin ⟨some path, definition.position⟩]
    | none => []

/-- What is wrong with a definition in view of the earlier ones.  A root block is
looked at for queries first, then for mutations and for subscriptions. -/
def definitionFaults (earlier : List Source) (s : Source) : List SchemaFailure :=
  match s.definition with
  | .roots block =>
    [OperationKind.query, .mutation, .subscription].flatMap (claimFaults earlier s.path block)
  | .type definition => typeFaults earlier s.path definition
  | .directive definition => directiveFaults earlier s.path definition
  | .extension _ => []

/-! ### Taking in definitions -/

namespace Draft

/-- The draft holds the definitions among the sources, and nothing else. -/
structure Holds (d : Draft) (sources : List Source) : Prop where
  types : d.types.entries = declaredTypes sources
  directives : d.directives.entries = declaredDirectives sources
  claim : ∀ kind, d.claim kind = (claimsOf kind sources).head?
  /-- No directive has the name of a built-in one. -/
  custom : ∀ e ∈ declaredDirectives sources, DirectiveDef.isBuiltInName e.1 = false

theorem holds_empty : Draft.empty.Holds [] where
  types := rfl
  directives := rfl
  claim := by
    intro kind
    cases kind <;> rfl
  custom := by
    intro e mem
    cases mem

theorem claim_setClaim (d : Draft) (kind : OperationKind) (claim : RootClaim)
    (other : OperationKind) :
    (d.setClaim kind claim).claim other = if other = kind then some claim else d.claim other := by
  cases kind <;> cases other <;> rfl

namespace Holds

variable {d d' : Draft} {earlier : List Source} {s : Source}

theorem find?_type (holds : d.Holds earlier) (name : String) :
    d.types.find? name = (declaredTypes earlier).lookup name := by
  rw [OrderedMap.find?, holds.types]

theorem find?_directive (holds : d.Holds earlier) (name : String) :
    d.directives.find? name = (declaredDirectives earlier).lookup name := by
  rw [OrderedMap.find?, holds.directives]

/-- A draft to which just a source was added. -/
theorem concat (holds : d.Holds earlier)
    (types : d'.types.entries = d.types.entries ++
      s.type?.toList.map fun t => (t.2.name, .ofDefinition t.1 t.2))
    (directives : d'.directives.entries = d.directives.entries ++
      s.directive?.toList.map fun t => (t.2.name, .ofDefinition t.1 t.2))
    (claim : ∀ kind, d'.claim kind = (d.claim kind).or (s.claim? kind))
    (custom : ∀ t ∈ s.directive?, DirectiveDef.isBuiltInName t.2.name = false) :
    d'.Holds (earlier ++ [s]) := by
  have directivesEq : declaredDirectives (earlier ++ [s]) = declaredDirectives earlier ++
      s.directive?.toList.map fun t => (t.2.name, .ofDefinition t.1 t.2) := by
    rw [declaredDirectives, directivesOf, filterMap_concat, List.map_append]
    rfl
  constructor
  · rw [types, holds.types, declaredTypes, declaredTypes, typesOf, typesOf, filterMap_concat,
      List.map_append, List.append_assoc]
  · rw [directives, holds.directives, directivesEq]
  · intro kind
    rw [claim, holds.claim, claimsOf, claimsOf, filterMap_concat, List.head?_append]
    cases s.claim? kind with
    | none => rfl
    | some claim => rfl
  · intro e mem
    rw [directivesEq, List.mem_append, List.mem_map] at mem
    rcases mem with old | ⟨t, isThis, rfl⟩
    · exact holds.custom e old
    · exact custom t (Option.mem_toList.mp isThis)

theorem meets_addType (holds : d.Holds earlier) (path : String) (definition : TypeDefinition) :
    Meets (typeFaults earlier path definition)
      (Holds · (earlier ++ [⟨path, .type definition⟩])) (d.addType path definition) := by
  unfold addType typeFaults
  rw [← holds.find?_type]
  cases found : d.types.find? definition.name with
  | some first => rfl
  | none =>
      refine ⟨rfl, holds.concat ?_ ?_ ?_ ?_⟩
      · exact OrderedMap.entries_insert_of_new found _
      · exact (List.append_nil _).symm
      · exact fun kind => (Option.or_none).symm
      · exact fun t none => nomatch none

theorem meets_addDirective (holds : d.Holds earlier) (path : String)
    (definition : DirectiveDefinition) :
    Meets (directiveFaults earlier path definition)
      (Holds · (earlier ++ [⟨path, .directive definition⟩])) (d.addDirective path definition) := by
  unfold addDirective directiveFaults
  simp only [← holds.find?_directive, ← DirectiveDef.isBuiltInName_iff]
  cases builtIn : DirectiveDef.isBuiltInName definition.name with
  | true => rfl
  | false =>
      cases found : d.directives.find? definition.name with
      | some first => rfl
      | none =>
          refine ⟨rfl, holds.concat ?_ ?_ ?_ ?_⟩
          · exact (List.append_nil _).symm
          · exact OrderedMap.entries_insert_of_new found _
          · exact fun kind => (Option.or_none).symm
          · rintro t ⟨⟩
            exact builtIn

/-- After some kinds of operation, the root types that a block claims for these
are taken in, and all else is as before. -/
structure ClaimedFor (d : Draft) (s : Source) (kinds : List OperationKind) (d' : Draft) :
    Prop where
  types : d'.types = d.types
  directives : d'.directives = d.directives
  claim : ∀ kind, d'.claim kind =
    if kind ∈ kinds then (d.claim kind).or (s.claim? kind) else d.claim kind

theorem meets_addRoot (holds : d.Holds earlier) {path : String} {block : RootBlock}
    {kinds : List OperationKind} {kind : OperationKind} (new : kind ∉ kinds)
    (claimed : ClaimedFor d ⟨path, .roots block⟩ kinds d') :
    Meets (claimFaults earlier path block kind)
      (ClaimedFor d ⟨path, .roots block⟩ (kinds ++ [kind]))
      (addRoot block ⟨some path, block.position⟩ d' kind) := by
  have sameClaim : d'.claim kind = (claimsOf kind earlier).head? := by
    rw [claimed.claim, if_neg new, holds.claim]
  have isClaim := Source.claim?_roots kind path block
  unfold addRoot claimFaults
  rw [isClaim]
  cases named : block.root kind with
  | none =>
      refine ⟨rfl, claimed.types, claimed.directives, ?_⟩
      intro other
      rw [claimed.claim]
      by_cases same : other = kind
      · subst same
        simp [new, isClaim, named]
      · simp [same]
  | some typeName =>
      rw [sameClaim]
      cases taken : (claimsOf kind earlier).head? with
      | some first => rfl
      | none =>
          refine ⟨rfl, ?_, ?_, ?_⟩
          · rw [← claimed.types]
            cases kind <;> rfl
          · rw [← claimed.directives]
            cases kind <;> rfl
          · intro other
            rw [claim_setClaim, claimed.claim]
            by_cases same : other = kind
            · subst same
              simp [isClaim, named, holds.claim, taken]
            · simp [same]

theorem meets_addRoots (holds : d.Holds earlier) (path : String) (block : RootBlock) :
    Meets ([OperationKind.query, .mutation, .subscription].flatMap
        (claimFaults earlier path block))
      (Holds · (earlier ++ [⟨path, .roots block⟩])) (d.addRoots path block) := by
  have nodup : [OperationKind.query, .mutation, .subscription].Nodup := by decide
  have run : Meets (withEarlier (fun _ => claimFaults earlier path block) []
      [OperationKind.query, .mutation, .subscription])
      (ClaimedFor d ⟨path, .roots block⟩ [OperationKind.query, .mutation, .subscription])
      (d.addRoots path block) := by
    apply Meets.foldlM
    · intro kinds kind later d' split claimed
      have new : kind ∉ kinds := by
        rw [split, List.nodup_append] at nodup
        exact fun mem => nodup.2.2 kind mem kind List.mem_cons_self rfl
      exact holds.meets_addRoot new claimed
    · exact ⟨rfl, rfl, fun _ => rfl⟩
  rw [withEarlier_const] at run
  refine run.imp fun d' claimed => holds.concat ?_ ?_ ?_ ?_
  · rw [claimed.types]
    exact (List.append_nil _).symm
  · rw [claimed.directives]
    exact (List.append_nil _).symm
  · intro kind
    have every : kind ∈ [OperationKind.query, .mutation, .subscription] := by
      cases kind <;> decide
    rw [claimed.claim, if_pos every]
  · exact fun t none => nomatch none

/-- Taking in a source fails with the first fault of it.  Extensions are held
elsewhere. -/
theorem meets_addSource (holds : d.Holds earlier) (s : Source) :
    Meets (definitionFaults earlier s) (Holds · (earlier ++ [s])) (d.addSource s) := by
  obtain ⟨path, definition⟩ := s
  cases definition with
  | roots block => exact holds.meets_addRoots path block
  | type definition => exact holds.meets_addType path definition
  | directive definition => exact holds.meets_addDirective path definition
  | extension definition =>
      refine ⟨rfl, holds.concat ?_ ?_ ?_ ?_⟩
      · exact (List.append_nil _).symm
      · exact (List.append_nil _).symm
      · exact fun kind => Option.or_none.symm
      · exact fun t none => nomatch none

end Holds

/-- Taking in sources fails with the first fault of any of them. -/
theorem meets_foldlM_addSource (sources : List Source) :
    Meets (withEarlier definitionFaults [] sources) (Holds · sources)
      (sources.foldlM addSource Draft.empty) :=
  Meets.foldlM definitionFaults (fun earlier d => Holds d earlier)
    (fun _ s _ _ _ holds => holds.meets_addSource s) holds_empty

end Draft

end GraphQLStatics
