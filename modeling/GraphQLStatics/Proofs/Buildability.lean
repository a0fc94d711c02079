import Mathlib.Data.List.Induction
import GraphQLStatics.Proofs.SchemaBuilding

/-!
# When a schema can be built

A schema can be built from sources just if names are defined once, extensions
fit the types that they extend, and the root types are objects (`Buildable`).
Nothing in these conditions mentions an order.  If one of them is violated,
building fails, and what it fails with is the first violation in the order in
which the sources are gone through (`faultsOf`).

## Main Definitions

* `DistinctNames`: types, directives and root types are defined once
* `Buildable`: a schema can be built

## Main Statements

* `withEarlier_definitionFaults_eq_nil_iff`: no definition is at fault if and only
  if names are defined once
* `faultsOf_eq_nil_iff`: sources without faults
* `ofLoads_fails_with_first_fault`: when building fails, and with what
-/

namespace GraphQLStatics

/-! ### Names that are defined once -/

/-- Types, directives and root types are defined once. -/
structure DistinctNames (sources : List Source) : Prop where
  /-- No type has the name of another one or of a built-in scalar. -/
  types : (scalarNames ++ (typesOf sources).map (·.2.name)).Nodup
  /-- No directive has the name of another one or of a built-in one. -/
  directives :
    (ownDirectiveNames ++ (directivesOf sources).map (·.2.name)).Nodup
  /-- No root type is claimed twice. -/
  claims : ∀ kind, (claimsOf kind sources).length ≤ 1

theorem map_fst_declaredTypes (sources : List Source) :
    (declaredTypes sources).map Prod.fst =
      scalarNames ++ (typesOf sources).map (·.2.name) := by
  rw [declaredTypes, List.map_append, List.map_map]
  rfl

theorem map_fst_declaredDirectives (sources : List Source) :
    (declaredDirectives sources).map Prod.fst = (directivesOf sources).map (·.2.name) := by
  rw [declaredDirectives, List.map_map]
  rfl

theorem typeFaults_eq_nil_iff (earlier : List Source) (path : String)
    (definition : TypeDefinition) :
    typeFaults earlier path definition = [] ↔ definition.name ∉
      scalarNames ++ (typesOf earlier).map (·.2.name) := by
  rw [← map_fst_declaredTypes, ← lookup_eq_none_iff_notMem, typeFaults]
  cases (declaredTypes earlier).lookup definition.name with
  | none => simp
  | some first => simp

theorem directiveFaults_eq_nil_iff (earlier : List Source) (path : String)
    (definition : DirectiveDefinition) :
    directiveFaults earlier path definition = [] ↔ definition.name ∉
      ownDirectiveNames ++ (directivesOf earlier).map (·.2.name) := by
  rw [List.mem_append, not_or, ← map_fst_declaredDirectives, ← lookup_eq_none_iff_notMem,
    directiveFaults]
  by_cases builtIn : definition.name ∈ ownDirectiveNames
  · simp [builtIn]
  · cases (declaredDirectives earlier).lookup definition.name with
    | none => simp [builtIn]
    | some first => simp [builtIn]

theorem claimFaults_eq_nil_iff (earlier : List Source) (path : String) (block : RootBlock)
    (kind : OperationKind) :
    claimFaults earlier path block kind = [] ↔
      Source.claim? kind ⟨path, .roots block⟩ = none ∨ claimsOf kind earlier = [] := by
  rw [claimFaults]
  cases Source.claim? kind ⟨path, .roots block⟩ with
  | none => simp
  | some claim =>
      cases claimsOf kind earlier with
      | nil => simp
      | cons first rest => simp

/-- What keeps a definition from being at fault. -/
theorem definitionFaults_eq_nil_iff (earlier : List Source) (s : Source) :
    definitionFaults earlier s = [] ↔
      (∀ t ∈ s.type?, t.2.name ∉
        scalarNames ++ (typesOf earlier).map (·.2.name)) ∧
      (∀ t ∈ s.directive?, t.2.name ∉
        ownDirectiveNames ++ (directivesOf earlier).map (·.2.name)) ∧
      ∀ kind, s.claim? kind = none ∨ claimsOf kind earlier = [] := by
  obtain ⟨path, definition⟩ := s
  cases definition with
  | type definition =>
      have types := typeFaults_eq_nil_iff earlier path definition
      simpa [definitionFaults, Source.type?, Source.directive?, Source.claim?] using types
  | directive definition =>
      have directives := directiveFaults_eq_nil_iff earlier path definition
      simpa [definitionFaults, Source.type?, Source.directive?, Source.claim?] using directives
  | extension definition =>
      simp [definitionFaults, Source.type?, Source.directive?, Source.claim?]
  | roots block =>
      have claims := claimFaults_eq_nil_iff earlier path block
      constructor
      · intro none
        refine ⟨nofun, nofun, fun kind => (claims kind).mp ?_⟩
        exact List.flatMap_eq_nil_iff.mp none kind (by cases kind <;> decide)
      · rintro ⟨-, -, once⟩
        exact List.flatMap_eq_nil_iff.mpr fun kind _ => (claims kind).mpr (once kind)

/-- Names stay distinct if and only if the next one is new. -/
theorem nodup_names_concat {α β : Type} (f : α → Option β) (name : β → String)
    (taken : List String) (l : List α) (x : α) :
    (taken ++ ((l ++ [x]).filterMap f).map name).Nodup ↔
      (taken ++ (l.filterMap f).map name).Nodup ∧
        ∀ b ∈ f x, name b ∉ taken ++ (l.filterMap f).map name := by
  rw [filterMap_concat, List.map_append, ← List.append_assoc]
  cases f x with
  | none => simp
  | some b =>
      rw [Option.toList_some, List.map_singleton, ← List.concat_eq_append, List.nodup_concat]
      simp [and_comm]

theorem length_claimsOf_concat (kind : OperationKind) (l : List Source) (s : Source) :
    (claimsOf kind (l ++ [s])).length ≤ 1 ↔
      (claimsOf kind l).length ≤ 1 ∧ (s.claim? kind = none ∨ claimsOf kind l = []) := by
  rw [claimsOf, filterMap_concat, ← claimsOf, List.length_append]
  cases s.claim? kind with
  | none => simp
  | some claim => cases claimsOf kind l <;> simp

theorem distinctNames_nil : DistinctNames [] where
  types := by decide
  directives := by decide
  claims := fun _ => Nat.zero_le 1

theorem distinctNames_concat (l : List Source) (s : Source) :
    DistinctNames (l ++ [s]) ↔ DistinctNames l ∧ definitionFaults l s = [] := by
  have types := nodup_names_concat Source.type? (·.2.name)
    (scalarNames) l s
  have directives := nodup_names_concat Source.directive? (·.2.name)
    (ownDirectiveNames) l s
  have claims := fun kind => length_claimsOf_concat kind l s
  rw [definitionFaults_eq_nil_iff]
  constructor
  · rintro ⟨typesOnce, directivesOnce, claimsOnce⟩
    obtain ⟨typesBefore, typeNew⟩ := types.mp typesOnce
    obtain ⟨directivesBefore, directiveNew⟩ := directives.mp directivesOnce
    exact ⟨⟨typesBefore, directivesBefore, fun kind => ((claims kind).mp (claimsOnce kind)).1⟩,
      typeNew, directiveNew, fun kind => ((claims kind).mp (claimsOnce kind)).2⟩
  · rintro ⟨⟨typesBefore, directivesBefore, claimsBefore⟩, typeNew, directiveNew, claimNew⟩
    exact ⟨types.mpr ⟨typesBefore, typeNew⟩, directives.mpr ⟨directivesBefore, directiveNew⟩,
      fun kind => (claims kind).mpr ⟨claimsBefore kind, claimNew kind⟩⟩

/-- No definition is at fault in view of the earlier ones if and only if names are
defined once. -/
theorem withEarlier_definitionFaults_eq_nil_iff (sources : List Source) :
    withEarlier definitionFaults [] sources = [] ↔ DistinctNames sources := by
  -- From the end, since a definition is compared with those before it.
  induction sources using List.reverseRecOn with
  | nil => exact iff_of_true rfl distinctNames_nil
  | append_singleton l s ih =>
      rw [withEarlier_concat, List.append_eq_nil_iff, ih, distinctNames_concat, List.nil_append]

theorem distinctNames_definitionsOf (sources : List Source) :
    DistinctNames (definitionsOf sources) ↔ DistinctNames sources := by
  constructor
  · rintro ⟨types, directives, claims⟩
    rw [typesOf_definitionsOf] at types
    rw [directivesOf_definitionsOf] at directives
    exact ⟨types, directives, fun kind => claimsOf_definitionsOf kind sources ▸ claims kind⟩
  · rintro ⟨types, directives, claims⟩
    refine ⟨?_, ?_, fun kind => ?_⟩
    · rwa [typesOf_definitionsOf]
    · rwa [directivesOf_definitionsOf]
    · rw [claimsOf_definitionsOf]
      exact claims kind

/-! ### Extensions and root types -/

/-- Where names are defined once, a declared type of a kind that definitions can
have is one of the definitions. -/
theorem DistinctNames.lookup_declaredTypes_iff {sources : List Source}
    (distinct : DistinctNames sources) (name : String) (body : TypeBody) :
    (∃ t, (declaredTypes sources).lookup name = some t ∧ t.kind = body.kind) ↔
      ∃ t ∈ typesOf sources, t.2.name = name ∧ t.2.body.kind = body.kind := by
  have nodup : ((declaredTypes sources).map Prod.fst).Nodup :=
    map_fst_declaredTypes sources ▸ distinct.types
  have lookup_iff := OrderedMap.find?_eq_some_iff ⟨declaredTypes sources, nodup⟩ name
  constructor
  · rintro ⟨t, found, sameKind⟩
    rcases List.mem_append.mp ((lookup_iff t).mp found) with builtIn | defined
    · obtain ⟨scalar, same⟩ := mem_builtInTypes.mp builtIn
      cases same
      -- Each built-in scalar is a kind of its own, which no definition has.
      exact absurd sameKind (scalar.kind_ne_kind body)
    · obtain ⟨definition, mem, same⟩ := List.mem_map.mp defined
      cases same
      exact ⟨definition, mem, rfl, (TypeContent.kind_ofBody _ _).symm.trans sameKind⟩
  · rintro ⟨definition, mem, rfl, sameKind⟩
    refine ⟨.ofDefinition definition.1 definition.2, (lookup_iff _).mpr ?_, ?_⟩
    · exact List.mem_append_right _ (List.mem_map_of_mem mem)
    · exact (TypeContent.kind_ofBody _ _).trans sameKind

/-- An object of the name is defined. -/
def DefinesObject (sources : List Source) (name : String) : Prop :=
  ∃ t ∈ typesOf sources, t.2.name = name ∧ t.2.body.kind = .object

theorem DistinctNames.declaresObject_iff {sources : List Source}
    (distinct : DistinctNames sources) (name : String) :
    declaresObject sources name = true ↔ DefinesObject sources name := by
  rw [declaresObject, Option.any_eq_true]
  simp only [TypeDef.isObject, decide_eq_true_eq]
  exact distinct.lookup_declaredTypes_iff name (.object [] [])

theorem extensionFaults_eq_nil_iff (types : List (String × TypeDef))
    (ext : String × TypeDefinition) :
    extensionFaults types ext = [] ↔
      ∃ t, types.lookup ext.2.name = some t ∧ t.kind = ext.2.body.kind := by
  rw [extensionFaults]
  cases types.lookup ext.2.name with
  | none => simp
  | some t => simp

/-- What sources have to be like for a schema to be built from them. -/
structure Buildable (sources : List Source) : Prop extends DistinctNames sources where
  /-- An extension fits the definition of a type. -/
  extensions : ∀ ext ∈ extensionsOf sources, ∃ t ∈ typesOf sources,
    t.2.name = ext.2.name ∧ t.2.body.kind = ext.2.body.kind
  /-- A root type that is claimed is an object. -/
  roots : ∀ kind, ∀ claim ∈ claimsOf kind sources, DefinesObject sources claim.typeName
  /-- There is a root type for queries. -/
  query : claimsOf .query sources = [] → DefinesObject sources "Query"

theorem DistinctNames.rootFaults_eq_nil_iff {sources : List Source}
    (distinct : DistinctNames sources) (kind : OperationKind) :
    rootFaults sources kind = [] ↔
      ∀ claim ∈ claimsOf kind sources, DefinesObject sources claim.typeName := by
  -- Only the first claim is looked at, but there are no others.
  have single := distinct.claims kind
  rw [rootFaults]
  match claims : claimsOf kind sources, single with
  | [], _ => simp
  | [claim], _ => simp [← distinct.declaresObject_iff]

theorem DistinctNames.queryFaults_eq_nil_iff {sources : List Source}
    (distinct : DistinctNames sources) :
    queryFaults sources = [] ↔ (claimsOf .query sources = [] → DefinesObject sources "Query") := by
  rw [queryFaults, ← distinct.declaresObject_iff]
  cases claimsOf .query sources <;> cases declaresObject sources "Query" <;> simp

/-- Sources without faults are those that a schema can be built from. -/
theorem faultsOf_eq_nil_iff (sources : List Source) :
    faultsOf sources = [] ↔ Buildable sources := by
  simp only [faultsOf, List.append_eq_nil_iff, List.flatMap_eq_nil_iff,
    withEarlier_definitionFaults_eq_nil_iff, distinctNames_definitionsOf,
    extensionFaults_eq_nil_iff]
  constructor
  · rintro ⟨⟨⟨⟨distinct, extensions⟩, query, queryRoot⟩, mutation⟩, subscription⟩
    refine { distinct with extensions := ?_, roots := ?_, query := ?_ }
    · intro ext mem
      exact (distinct.lookup_declaredTypes_iff _ _).mp (extensions ext mem)
    · intro kind
      rw [← distinct.rootFaults_eq_nil_iff]
      cases kind <;> assumption
    · exact distinct.queryFaults_eq_nil_iff.mp queryRoot
  · rintro ⟨distinct, extensions, roots, query⟩
    have none := fun kind => (distinct.rootFaults_eq_nil_iff kind).mpr (roots kind)
    refine ⟨⟨⟨⟨distinct, ?_⟩, none _, ?_⟩, none _⟩, none _⟩
    · intro ext mem
      exact (distinct.lookup_declaredTypes_iff _ _).mpr (extensions ext mem)
    · exact distinct.queryFaults_eq_nil_iff.mpr query

-- The extension comes first, but definitions are gone through before extensions.
example (path : String) (p q : Position) :
    faultsOf [⟨path, .extension ⟨p, "A", .scalar⟩⟩, ⟨path, .type ⟨q, "Int", .scalar⟩⟩] =
      [.duplicateType "Int" .builtIn (.source ⟨some path, q⟩),
        .extensionOfUndefined "A" ⟨some path, p⟩, .noQueryRoot] :=
  rfl

/-- A schema is built if and only if the sources allow it.  Otherwise building
fails with the first of their faults. -/
theorem ofLoads_fails_with_first_fault (loads : List Load) :
    ((∃ schema, Schema.ofLoads loads = .ok schema) ↔ Buildable (sourcesOf loads)) ∧
      ∀ failure, Schema.ofLoads loads = .error failure ↔
        (faultsOf (sourcesOf loads)).head? = some failure := by
  have built := Schema.meets_ofLoads loads
  refine ⟨?_, built.eq_error_iff⟩
  rw [built.exists_ok_iff, faultsOf_eq_nil_iff]

end GraphQLStatics
