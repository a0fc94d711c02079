import GraphQLStatics.Proofs.ExtensionMerging

/-!
# Building a schema

Building goes through the definitions, then through the extensions, and then
through the root types for queries, mutations and subscriptions.  It stops at
the first fault.  So the faults of all sources, in that order, say how building
ends (`faultsOf`), and without faults the schema is described by the sources
(`Schema.BuiltFrom`).

## Main Definitions

* `rootFaults`, `queryFaults`: what is wrong with the root types
* `faultsOf`: what is wrong with some sources
* `Schema.BuiltFrom`: a schema that sources describe

## Main Statements

* `Schema.meets_ofLoads`: how building ends
-/

namespace GraphQLStatics

/-! ### What is wrong with sources -/

/-- Whether the declared type of a name is an object. -/
def declaresObject (sources : List Source) (name : String) : Bool :=
  ((declaredTypes sources).lookup name).any TypeDef.isObject

/-- A root type that is claimed and is no object. -/
def rootFaults (sources : List Source) (kind : OperationKind) : List SchemaFailure :=
  match (claimsOf kind sources).head? with
  | some claim =>
    if declaresObject sources claim.typeName then []
    else [.rootNotAnObject kind claim.typeName claim.place]
  | none => []

/-- The lack of a root type for queries. -/
def queryFaults (sources : List Source) : List SchemaFailure :=
  if (claimsOf .query sources).isEmpty && !declaresObject sources "Query" then [.noQueryRoot]
  else []

/-- What is wrong with sources: with the definitions in order, then with the
extensions in order, and then with the root types for queries, mutations and
subscriptions. -/
def faultsOf (sources : List Source) : List SchemaFailure :=
  withEarlier definitionFaults [] (definitionsOf sources) ++
    (extensionsOf sources).flatMap (extensionFaults (declaredTypes sources)) ++
    (rootFaults sources .query ++ queryFaults sources) ++
    rootFaults sources .mutation ++ rootFaults sources .subscription

/-! ### Definitions without extensions -/

/-- What is gathered from sources other than extensions is gathered from the
definitions. -/
theorem filterMap_definitionsOf {α : Type} {gather : Source → Option α}
    (passes : ∀ path definition, gather ⟨path, .extension definition⟩ = none)
    (sources : List Source) :
    (definitionsOf sources).filterMap gather = sources.filterMap gather := by
  rw [definitionsOf, List.filterMap_filter]
  refine List.filterMap_congr ?_
  rintro ⟨path, definition⟩ _
  cases definition with
  | roots block => rfl
  | type definition => rfl
  | directive definition => rfl
  | extension definition => exact (passes path definition).symm

theorem typesOf_definitionsOf (sources : List Source) :
    typesOf (definitionsOf sources) = typesOf sources :=
  filterMap_definitionsOf (fun _ _ => rfl) sources

theorem directivesOf_definitionsOf (sources : List Source) :
    directivesOf (definitionsOf sources) = directivesOf sources :=
  filterMap_definitionsOf (fun _ _ => rfl) sources

theorem claimsOf_definitionsOf (kind : OperationKind) (sources : List Source) :
    claimsOf kind (definitionsOf sources) = claimsOf kind sources :=
  filterMap_definitionsOf (fun _ _ => rfl) sources

theorem Draft.Holds.of_definitionsOf {d : Draft} {sources : List Source}
    (holds : d.Holds (definitionsOf sources)) : d.Holds sources := by
  have directivesEq : declaredDirectives (definitionsOf sources) = declaredDirectives sources := by
    rw [declaredDirectives, directivesOf_definitionsOf, declaredDirectives]
  constructor
  · rw [holds.types, declaredTypes, typesOf_definitionsOf, declaredTypes]
  · rw [holds.directives, directivesEq]
  · intro kind
    rw [holds.claim, claimsOf_definitionsOf]
  · rw [← directivesEq]
    exact holds.custom

/-! ### Root types -/

/-- Types that are objects just where the sources declare objects. -/
def SameObjects (types : OrderedMap TypeDef) (sources : List Source) : Prop :=
  ∀ name, Draft.hasObject types name = declaresObject sources name

theorem ExtendedTypes.sameObjects {sources : List Source} {types : OrderedMap TypeDef}
    {extensions : List (String × TypeDefinition)}
    (extended : ExtendedTypes (declaredTypes sources) extensions types) :
    SameObjects types sources := by
  intro name
  rw [Draft.hasObject, extended.find?_eq, declaresObject]
  cases (declaredTypes sources).lookup name with
  | none => rfl
  | some t =>
      show (t.extendedBy extensions).isObject = t.isObject
      rw [TypeDef.isObject, TypeDef.kind_extendedBy, TypeDef.isObject]

/-- A root type that was resolved is an object, and none is resolved only if none
is claimed and the standard name belongs to no object. -/
theorem meets_resolveRoot {types : OrderedMap TypeDef} {sources : List Source}
    (same : SameObjects types sources) (kind : OperationKind) (standard : String) :
    Meets (rootFaults sources kind)
      (fun root => (∀ name ∈ root, Draft.hasObject types name = true) ∧
        root.isNone = ((claimsOf kind sources).isEmpty && !declaresObject sources standard))
      (Draft.resolveRoot types kind standard (claimsOf kind sources).head?) := by
  unfold rootFaults Draft.resolveRoot
  cases claims : claimsOf kind sources with
  | nil =>
      rw [List.head?_nil]
      cases isObject : Draft.hasObject types standard with
      | true =>
          refine ⟨rfl, ?_, ?_⟩
          · rintro name ⟨⟩
            exact isObject
          · rw [← same, isObject]
            rfl
      | false =>
          refine ⟨rfl, ?_, ?_⟩
          · rintro name ⟨⟩
          · rw [← same, isObject]
            rfl
  | cons claim rest =>
      simp only [List.head?_cons, ← same claim.typeName]
      cases isObject : Draft.hasObject types claim.typeName with
      | true =>
          refine ⟨rfl, ?_, rfl⟩
          rintro name ⟨⟩
          exact isObject
      | false => rfl

/-! ### Directives -/

/-- Directives that are new and of different names are added at the end. -/
theorem entries_foldl_insert_missing {m : OrderedMap DirectiveDef} {added : List DirectiveDef}
    (new : ∀ directive ∈ added, directive.name ∉ m.keys)
    (nodup : (added.map (·.name)).Nodup) :
    (added.foldl (fun m directive =>
        if m.contains directive.name then m else m.insert directive.name directive) m).entries =
      m.entries ++ added.map fun directive => (directive.name, directive) := by
  induction added generalizing m with
  | nil => exact (List.append_nil _).symm
  | cons directive rest ih =>
      obtain ⟨notAgain, nodup⟩ := List.nodup_cons.mp nodup
      have absent : m.find? directive.name = none :=
        (m.find?_eq_none_iff _).mpr (new directive List.mem_cons_self)
      have missing : m.contains directive.name = false := by
        rw [OrderedMap.contains, absent]
        rfl
      have inserted := OrderedMap.entries_insert_of_new absent directive
      have new' : ∀ other ∈ rest, other.name ∉ (m.insert directive.name directive).keys := by
        intro other mem
        rw [OrderedMap.keys, inserted, List.map_append, List.mem_append, not_or]
        refine ⟨new other (List.mem_cons_of_mem _ mem), ?_⟩
        intro same
        have sameName : other.name = directive.name := by simpa using same
        exact notAgain (List.mem_map.mpr ⟨other, mem, sameName⟩)
      rw [List.foldl_cons, missing, if_neg Bool.false_ne_true, ih new' nodup, inserted,
        List.append_assoc]
      rfl

theorem nodup_builtIns : (DirectiveDef.builtIns.map (·.name)).Nodup := by
  decide

/-- The directives of a schema are those defined, and then the built-in ones. -/
theorem Draft.Holds.entries_allDirectives {d : Draft} {sources : List Source}
    (holds : d.Holds sources) :
    d.allDirectives.entries = declaredDirectives sources ++
      DirectiveDef.builtIns.map fun directive => (directive.name, directive) := by
  have new : ∀ directive ∈ DirectiveDef.builtIns, directive.name ∉ d.directives.keys := by
    intro directive isBuiltIn mem
    rw [OrderedMap.keys, holds.directives] at mem
    obtain ⟨e, isDeclared, sameName⟩ := List.mem_map.mp mem
    have custom := holds.custom e isDeclared
    rw [sameName, DirectiveDef.isBuiltInName, List.any_eq_false] at custom
    exact custom directive isBuiltIn (by simp)
  rw [Draft.allDirectives, entries_foldl_insert_missing new nodup_builtIns, holds.directives]

/-! ### The schema -/

/-- The sources describe the schema. -/
structure Schema.BuiltFrom (schema : Schema) (sources : List Source) : Prop where
  types : ExtendedTypes (declaredTypes sources) (extensionsOf sources) schema.types
  directives : schema.directives.entries = declaredDirectives sources ++
    DirectiveDef.builtIns.map fun directive => (directive.name, directive)
  /-- Every root type is an object. -/
  root : ∀ kind, ∀ name ∈ schema.rootName? kind, Draft.hasObject schema.types name = true

theorem keyed_declaredTypes (sources : List Source) :
    ∀ e ∈ declaredTypes sources, e.1 = e.2.name := by
  intro e mem
  rcases List.mem_append.mp mem with builtIn | defined
  · obtain ⟨scalar, rfl⟩ := mem_builtInTypes.mp builtIn
    rfl
  · obtain ⟨t, -, rfl⟩ := List.mem_map.mp defined
    rfl

/-- Building from a draft that holds the definitions, with the extensions put
aside. -/
theorem Draft.Holds.meets_build {d : Draft} {sources : List Source} (holds : d.Holds sources) :
    Meets ((extensionsOf sources).flatMap (extensionFaults (declaredTypes sources)) ++
        ((rootFaults sources .query ++ queryFaults sources) ++
          (rootFaults sources .mutation ++ rootFaults sources .subscription)))
      (Schema.BuiltFrom · sources) (d.aside (extensionsOf sources) 0).build := by
  have keyed : ∀ e ∈ d.types.entries, e.1 = e.2.name := by
    rw [holds.types]
    exact keyed_declaredTypes sources
  have merged := meets_foldlM_applyExtension keyed (extensionsOf sources)
  rw [holds.types] at merged
  refine merged.bind fun types extended => ?_
  have query := meets_resolveRoot extended.sameObjects .query "Query"
  have mutation := meets_resolveRoot extended.sameObjects .mutation "Mutation"
  have subscription := meets_resolveRoot extended.sameObjects .subscription "Subscription"
  rw [← holds.claim] at query mutation subscription
  rw [List.append_assoc]
  refine query.bind fun root resolved => ?_
  cases root with
  | none =>
      -- Without a root type for queries, this is the fault that comes next.
      have lacking : queryFaults sources = [.noQueryRoot] := by
        rw [queryFaults, ← resolved.2]
        rfl
      rw [lacking]
      rfl
  | some name =>
      have present : queryFaults sources = [] := by
        rw [queryFaults, ← resolved.2]
        rfl
      rw [present, List.nil_append]
      refine mutation.bind fun mutation isMutation => ?_
      rw [← List.append_nil (rootFaults sources .subscription)]
      refine subscription.bind fun subscription isSubscription => ?_
      refine ⟨rfl, extended, holds.entries_allDirectives, ?_⟩
      intro kind
      cases kind with
      | query => exact resolved.1
      | mutation => exact isMutation.1
      | subscription => exact isSubscription.1

/-- **How building ends.**  It fails with the first fault of the sources, and
without faults the sources describe the schema. -/
theorem Schema.meets_ofLoads (loads : List Load) :
    Meets (faultsOf (sourcesOf loads)) (Schema.BuiltFrom · (sourcesOf loads))
      (Schema.ofLoads loads) := by
  have gathered := Draft.meets_foldlM_addSource (definitionsOf (sourcesOf loads))
  rw [Schema.ofLoads_eq, faultsOf, List.append_assoc, List.append_assoc, List.append_assoc]
  exact gathered.bind fun d holds => holds.of_definitionsOf.meets_build

end GraphQLStatics
