import GraphQLStatics.Proofs.PoolIsolation
import GraphQLStatics.Proofs.SchemaInvariant
import GraphQLStatics.Proofs.SelectionScopes

/-!
# What is reported about fields

The rule about fields looks at every field of a document and at its scope.  It
reports a field that is selected on a union, and one that is selected on an object
or an interface without it.  Some fields need no definition.

In a schema that was built, a type has the fields of its definition and of its
extensions, and types are told apart by their names.  So what is reported can be
told from the sources of the schema and the derivation of scopes.

## Main Definitions

* `DeclaresField`: a definition or extension of a type has a field
* `Schema.Introspects`: a field needs no definition
* `Document.FieldFault`: a violation reports the field at a site

## Main Statements

* `Schema.BuiltFrom.isSome_field?_iff`: the fields of a built type
* `Document.reportsIn_undefined`: what is reported in any schema
* `validate_reports_undefined_fields`: which fields are reported
* `validate_spares_below_lost_scope`: what is not reported below a field that is not
  defined
-/

namespace GraphQLStatics

/-! ### Fields of built schemas -/

/-- The definition or an extension of the type has the field. -/
def DeclaresField (sources : List Source) (type field : String) : Prop :=
  ∃ part ∈ partsOf type sources, ∃ d ∈ part.2.body.fields, d.name = field

/-- The field needs no definition on the type. -/
def Schema.Introspects (schema : Schema) (t : TypeDef) (name : String) : Prop :=
  name = "__typename" ∨
    ((name = "__schema" ∨ name = "__type") ∧ schema.root? .query = some t)

theorem OrderedMap.Gathers.isSome_find?_iff {α : Type} {m : OrderedMap α}
    {entries : List (String × α)} (h : m.Gathers entries) (name : String) :
    (m.find? name).isSome = true ↔ ∃ e ∈ entries, e.1 = name := by
  rw [Option.isSome_iff_ne_none, ne_eq, find?_eq_none_iff, not_not, h.keys_eq,
    List.mem_eraseDups, List.mem_map]

theorem Field.exists_mem_entries {parts : List (String × TypeDefinition)} {name : String} :
    (∃ e ∈ (parts.map fun part => (part.1, part.2.body)).flatMap fun part =>
        Field.entries part.1 part.2.fields, e.1 = name) ↔
      ∃ part ∈ parts, ∃ d ∈ part.2.body.fields, d.name = name := by
  simp [Field.entries]

namespace Schema.BuiltFrom

variable {schema : Schema} {sources : List Source}

/-- A type of a built schema has the fields of its definition and its extensions. -/
theorem isSome_field?_iff (built : schema.BuiltFrom sources) (buildable : Buildable sources)
    {key : String} {t : TypeDef} (isType : schema.type? key = some t)
    (kind : t.kind = .object ∨ t.kind = .interface) (name : String) :
    (t.field? name).isSome = true ↔ DeclaresField sources t.name name := by
  cases t with
  | builtIn scalar => cases scalar <;> rcases kind with kind | kind <;> cases kind
  | defined typeName place content =>
      have merges := built.merges_of_type? buildable isType
      cases content with
      | object interfaces fields =>
          exact (merges.2.isSome_find?_iff name).trans Field.exists_mem_entries
      | interface fields =>
          exact (OrderedMap.Gathers.isSome_find?_iff merges name).trans Field.exists_mem_entries
      | scalar | union | enum | inputObject => rcases kind with kind | kind <;> cases kind

/-- Only one type of a built schema has the name of the root type of queries. -/
theorem isMetaField_iff (built : schema.BuiltFrom sources) {key : String} {t : TypeDef}
    (isType : schema.type? key = some t) (name : String) :
    isMetaField schema t name = true ↔ schema.Introspects t name := by
  have named : schema.rootName? .query = some schema.query := rfl
  obtain ⟨root, isEntry, isObject, isRoot⟩ := built.root?_eq named
  have isRootType : schema.type? schema.query = some root :=
    (schema.types.find?_eq_some_iff _ _).mpr isEntry
  have sameName : root.name = t.name ↔ root = t := by
    constructor
    · exact built.eq_of_name isRootType isType
    · rintro rfl
      rfl
  have isQuery : schema.queryType? = some root := by
    rw [queryType?, isRoot, Option.filter_some, if_pos isObject]
  rw [isMetaField, isQuery, Introspects, isRoot]
  simp [sameName]

end Schema.BuiltFrom

/-! ### What is wrong with a field -/

theorem TypeDef.isComposite_iff (t : TypeDef) :
    t.isComposite = true ↔ t.kind = .union ∨ t.kind = .object ∨ t.kind = .interface := by
  rw [isComposite]
  cases t.kind <;> decide

/-- The violation reports the field at the site.  The field is selected on a union, or
on an object or interface that does not define it, and does not belong to those that
need no definition there. -/
inductive Document.FieldFault (schema : Schema) (isMeta defines : TypeDef → String → Prop)
    (doc : Document) (site : SelectionSite) : Violation → Prop
  | onUnion {f : FieldUse} {sub : SelectionSet} {t : TypeDef}
      (stands : doc.Stands schema site (.field f sub) (some t)) (kind : t.kind = .union)
      (notMeta : ¬ isMeta t f.name) :
      FieldFault schema isMeta defines doc site
        (.fieldOnUnion f.name t.name (doc.place f.position))
  | missing {f : FieldUse} {sub : SelectionSet} {t : TypeDef}
      (stands : doc.Stands schema site (.field f sub) (some t))
      (kind : t.kind = .object ∨ t.kind = .interface) (notMeta : ¬ isMeta t f.name)
      (undefined : ¬ defines t f.name) :
      FieldFault schema isMeta defines doc site
        (.fieldDoesNotExist f.name t.name (doc.place f.position))

namespace Document

variable {schema : Schema} {doc : Document} {site : SelectionSite} {v : Violation}

/-- The violation reports the field at the site, where the schema itself says what
needs no definition and what is defined. -/
def Undefined (schema : Schema) (doc : Document) : SelectionSite → Violation → Prop :=
  doc.FieldFault schema (fun t name => isMetaField schema t name = true)
    fun t name => (t.field? name).isSome = true

/-- Only types of the schema matter. -/
theorem FieldFault.imp {isMeta isMeta' defines defines' : TypeDef → String → Prop}
    (sameMeta : ∀ key t name, schema.type? key = some t → (isMeta t name ↔ isMeta' t name))
    (sameDefined : ∀ key t name, schema.type? key = some t →
      t.kind = .object ∨ t.kind = .interface → (defines t name ↔ defines' t name))
    (fault : doc.FieldFault schema isMeta defines site v) :
    doc.FieldFault schema isMeta' defines' site v := by
  cases fault with
  | onUnion stands kind notMeta =>
      obtain ⟨key, isType⟩ := stands.exists_type?
      exact .onUnion stands kind (mt (sameMeta key _ _ isType).mpr notMeta)
  | missing stands kind notMeta undefined =>
      obtain ⟨key, isType⟩ := stands.exists_type?
      exact .missing stands kind (mt (sameMeta key _ _ isType).mpr notMeta)
        (mt (sameDefined key _ _ isType kind).mpr undefined)

theorem FieldFault.congr {isMeta isMeta' defines defines' : TypeDef → String → Prop}
    (sameMeta : ∀ key t name, schema.type? key = some t → (isMeta t name ↔ isMeta' t name))
    (sameDefined : ∀ key t name, schema.type? key = some t →
      t.kind = .object ∨ t.kind = .interface → (defines t name ↔ defines' t name)) :
    doc.FieldFault schema isMeta defines site v ↔
      doc.FieldFault schema isMeta' defines' site v :=
  ⟨imp sameMeta sameDefined, imp (fun key t name isType => (sameMeta key t name isType).symm)
    fun key t name isType kind => (sameDefined key t name isType kind).symm⟩

/-- A field is reported once at most. -/
theorem length_visitFieldFindings (schema : Schema) (doc : Document) (visit : Visit) :
    (visitFieldFindings schema doc visit).length ≤ 1 := by
  unfold visitFieldFindings fieldOnFindings
  repeat' split
  all_goals simp

/-- A site is reported as the field at it is. -/
theorem undefined_iff :
    doc.Undefined schema site v ↔
      ∃ visit, doc.visitAt? schema site = some visit ∧ v ∈ visitFieldFindings schema doc visit := by
  constructor
  · intro fault
    cases fault with
    | @onUnion f sub t stands kind notMeta =>
        have composite := (TypeDef.isComposite_iff t).mpr (.inl kind)
        have union := decide_eq_true kind
        refine ⟨_, stands_iff.mp stands, ?_⟩
        simp [visitFieldFindings, fieldOnFindings, TypeDef.isUnion, composite, notMeta, union]
    | @missing f sub t stands kind notMeta undefined =>
        have composite := (TypeDef.isComposite_iff t).mpr (.inr kind)
        have notUnion : t.isUnion = false := by
          rcases kind with kind | kind <;> rw [TypeDef.isUnion, kind] <;> rfl
        have isNone := Option.not_isSome_iff_eq_none.mp undefined
        refine ⟨_, stands_iff.mp stands, ?_⟩
        simp [visitFieldFindings, fieldOnFindings, composite, notMeta, notUnion, isNone]
  · rintro ⟨⟨selection, scope⟩, atSite, mem⟩
    have stands := stands_iff.mpr atSite
    cases selection with
    | spread f => cases mem
    | inline f sub => cases mem
    | field f sub =>
        cases scope with
        | none => cases mem
        | some t =>
            simp only [visitFieldFindings, fieldOnFindings, List.mem_ite_nil_left,
              List.mem_ite_nil_right] at mem
            obtain ⟨composite, notMeta, mem⟩ := mem
            split at mem
            · next union =>
                cases List.mem_singleton.mp mem
                exact .onUnion stands (of_decide_eq_true union) notMeta
            · next notUnion =>
                obtain ⟨isNone, mem⟩ := List.mem_ite_nil_right.mp mem
                cases List.mem_singleton.mp mem
                have kind := ((TypeDef.isComposite_iff t).mp composite).resolve_left
                  fun union => notUnion (decide_eq_true union)
                exact .missing stands kind notMeta (by simpa using isNone)

/-- **Fields that are not defined are reported** in a schema that need not be built. -/
theorem reportsIn_undefined (capacity : Nat) (schema : Schema) (doc : Document) :
    ReportsIn SelectionSite.Before (doc.Undefined schema)
      ((Validator.ofConfig ⟨capacity, [.fieldMustBeDefined]⟩).validate schema doc).1 := by
  have found := (doc.enumeratesIn_walk schema).reportsIn_flatMap SelectionSite.Before.irrefl
    (length_visitFieldFindings schema doc)
  rw [Validator.validate_single]
  exact found.congr fun site v => undefined_iff.symm

end Document

/-! ### Which fields are reported -/

/-- **The fields that are reported** in a schema that was built, one report for each, in
the order of the document: those on unions and those that no definition or extension of
their scope has. -/
theorem validate_reports_undefined_fields (loads : List Load) (schema : Schema)
    (ok : Schema.ofLoads loads = .ok schema) (capacity : Nat) (doc : Document) :
    ReportsIn SelectionSite.Before
      (doc.FieldFault schema schema.Introspects fun t => DeclaresField (sourcesOf loads) t.name)
      ((Validator.ofConfig ⟨capacity, [.fieldMustBeDefined]⟩).validate schema doc).1 := by
  obtain ⟨built, buildable⟩ := Schema.builtFrom_of_ofLoads ok
  refine (doc.reportsIn_undefined capacity schema).congr fun site v => ?_
  refine Document.FieldFault.congr ?_ ?_
  · exact fun key t name isType => built.isMetaField_iff isType name
  · exact fun key t name isType kind => built.isSome_field?_iff buildable isType kind name

/-- `type Query { dog: Dog, pet: Pet }`, `type Dog { name: String }` and
`union Pet = Dog` in a file, and `extend type Dog { age: Int }` in another. -/
def dogLoads : List Load :=
  [⟨some "dogs.graphql",
    [.type ⟨⟨1, 1⟩, "Query", .object []
      [⟨⟨1, 14⟩, "dog", [], .named "Dog"⟩, ⟨⟨1, 24⟩, "pet", [], .named "Pet"⟩]⟩,
     .type ⟨⟨2, 1⟩, "Dog", .object [] [⟨⟨2, 12⟩, "name", [], .named "String"⟩]⟩,
     .type ⟨⟨3, 1⟩, "Pet", .union ["Dog"]⟩]⟩,
   ⟨some "ages.graphql",
    [.extension ⟨⟨1, 1⟩, "Dog", .object [] [⟨⟨1, 19⟩, "age", [], .named "Int"⟩]⟩]⟩]

/-- The schema of these files. -/
def dogSchema : Schema :=
  match Schema.ofLoads dogLoads with
  | .ok schema => schema
  | .error _ => ⟨.empty, .empty, "Query", none, none⟩

/-- `{ pet { age __typename ... on Dog { age bark } } }`, and a fragment that nothing
spreads, `fragment F on Pet { name }`. -/
def petAges : Document where
  definitions :=
    [.operation ⟨⟨1, 1⟩, .query, none, [], [],
      .field ⟨⟨1, 3⟩, none, "pet", [], []⟩
        (.field ⟨⟨1, 9⟩, none, "age", [], []⟩ .nil
          (.field ⟨⟨1, 13⟩, none, "__typename", [], []⟩ .nil
            (.inline ⟨⟨1, 28⟩, some "Dog", []⟩
              (.field ⟨⟨1, 37⟩, none, "age", [], []⟩ .nil
                (.field ⟨⟨1, 41⟩, none, "bark", [], []⟩ .nil .nil)) .nil))) .nil⟩,
     .fragment ⟨⟨2, 1⟩, "F", "Pet", [], .field ⟨⟨2, 21⟩, none, "name", [], []⟩ .nil .nil⟩]
  file := none

/-- Ages can be selected on dogs, by the extension, but not on pets. -/
theorem validate_reports_undefined_fields_ages :
    Schema.ofLoads dogLoads = .ok dogSchema ∧
      ReportsIn SelectionSite.Before
        (petAges.FieldFault dogSchema dogSchema.Introspects fun t =>
          DeclaresField (sourcesOf dogLoads) t.name)
        [.fieldOnUnion "age" "Pet" ⟨none, ⟨1, 9⟩⟩,
          .fieldDoesNotExist "bark" "Dog" ⟨none, ⟨1, 41⟩⟩,
          .fieldOnUnion "name" "Pet" ⟨none, ⟨2, 21⟩⟩] :=
  ⟨rfl, validate_reports_undefined_fields dogLoads dogSchema rfl 0 petAges⟩

/-! ### Below a lost scope -/

theorem TypeDef.field?_eq_none (t : TypeDef) (notComposite : ¬ t.isComposite = true)
    (name : String) : t.field? name = none := by
  cases t with
  | builtIn scalar => rfl
  | defined typeName place content =>
      cases content with
      | object interfaces fields => exact absurd rfl notComposite
      | interface fields => exact absurd rfl notComposite
      | scalar | union | enum | inputObject => rfl

/-- The scope of a field that is reported is composite. -/
theorem Document.Undefined.exists_composite {schema : Schema} {doc : Document}
    {site : SelectionSite} {v : Violation} (undefined : doc.Undefined schema site v) :
    ∃ s t, doc.Stands schema site s (some t) ∧ t.isComposite = true := by
  cases undefined with
  | onUnion stands kind notMeta =>
      exact ⟨_, _, stands, (TypeDef.isComposite_iff _).mpr (.inl kind)⟩
  | missing stands kind notMeta undefined =>
      exact ⟨_, _, stands, (TypeDef.isComposite_iff _).mpr (.inr kind)⟩

/-- **Nothing is reported below a lost scope**, such as that of a field that is not
defined, unless an inline fragment in between has a condition that names a composite
type.  Scopes stay lost down to an inline fragment whose condition names a type. -/
theorem validate_spares_below_lost_scope (schema : Schema) (doc : Document) (holder : Holder)
    (path : List Nat) (outer : Selection) (scope : Option TypeDef)
    (above : doc.Stands schema ⟨holder, path⟩ outer scope)
    (lost : schema.ScopeBelow scope outer none) (capacity : Nat) :
    ReportsIn SelectionSite.Before (doc.Undefined schema)
      ((Validator.ofConfig ⟨capacity, [.fieldMustBeDefined]⟩).validate schema doc).1 ∧
    (∀ below, below ≠ [] →
      ¬ doc.Reopens schema (fun t => t.isComposite = true) holder path below →
      ∀ v, ¬ doc.Undefined schema ⟨holder, path ++ below⟩ v) ∧
    ∀ below, below ≠ [] → ¬ doc.Reopens schema (fun _ => True) holder path below →
      ∀ s inner, doc.Stands schema ⟨holder, path ++ below⟩ s inner → inner = none := by
  refine ⟨doc.reportsIn_undefined capacity schema, ?_, ?_⟩
  · intro below isBelow closed v undefined
    obtain ⟨s, t, stands, composite⟩ := undefined.exists_composite
    exact closed (above.reopens lost TypeDef.field?_eq_none isBelow stands composite)
  · intro below isBelow closed s inner stands
    cases inner with
    | none => rfl
    | some t =>
        exact absurd (above.reopens lost (fun t notAny => absurd trivial notAny) isBelow stands
          trivial) closed

/-- `{ dog { unknown { other ... on Dog { bogus } } } }` -/
def strayFields : Document where
  definitions :=
    [.operation ⟨⟨1, 1⟩, .query, none, [], [],
      .field ⟨⟨1, 3⟩, none, "dog", [], []⟩
        (.field ⟨⟨1, 9⟩, none, "unknown", [], []⟩
          (.field ⟨⟨1, 19⟩, none, "other", [], []⟩ .nil
            (.inline ⟨⟨1, 29⟩, some "Dog", []⟩
              (.field ⟨⟨1, 38⟩, none, "bogus", [], []⟩ .nil .nil) .nil)) .nil) .nil⟩]
  file := none

/-- Dogs have no field `unknown`, so `other` is not reported. -/
theorem validate_spares_below_lost_scope_other :
    ∃ f sub dog, strayFields.Stands dogSchema ⟨.operation 0, [0, 0]⟩ (.field f sub) (some dog) ∧
      dogSchema.ScopeBelow (some dog) (.field f sub) none ∧
      ReportsIn SelectionSite.Before (strayFields.Undefined dogSchema)
        [.fieldDoesNotExist "unknown" "Dog" ⟨none, ⟨1, 9⟩⟩,
          .fieldDoesNotExist "bogus" "Dog" ⟨none, ⟨1, 38⟩⟩] ∧
      ∀ v, ¬ strayFields.Undefined dogSchema ⟨.operation 0, [0, 0] ++ [0]⟩ v := by
  obtain ⟨f, sub, dog, above, lost⟩ : ∃ f sub dog,
      strayFields.Stands dogSchema ⟨.operation 0, [0, 0]⟩ (.field f sub) (some dog) ∧
      dogSchema.ScopeBelow (some dog) (.field f sub) none :=
    ⟨_, _, _, Document.stands_iff.mpr rfl, .undefinedField rfl⟩
  obtain ⟨reported, spared, -⟩ :=
    validate_spares_below_lost_scope dogSchema strayFields _ _ _ _ above lost 0
  refine ⟨f, sub, dog, above, lost, reported, spared [0] (by decide) ?_⟩
  rintro ⟨_ | ⟨i, middle⟩, rest, f, sub, scope, name, t, split, notEmpty, notEnd, -⟩
  · exact notEmpty rfl
  · cases middle with
    | nil => exact notEnd (List.cons.inj split).2.symm
    | cons j middle => cases (List.cons.inj split).2

/-- **A field below a field that is not defined can be reported.**  Dogs are objects
without a field `unknown`, but `bogus` is reported within it, since it is selected on
dogs again. -/
theorem validate_reports_below_undefined_field :
    ∃ f sub dog, Schema.ofLoads dogLoads = .ok dogSchema ∧
      strayFields.Stands dogSchema ⟨.operation 0, [0, 0]⟩ (.field f sub) (some dog) ∧
      dog.isComposite = true ∧ dog.field? f.name = none ∧
      strayFields.Undefined dogSchema ⟨.operation 0, [0, 0] ++ [1, 0]⟩
        (.fieldDoesNotExist "bogus" "Dog" ⟨none, ⟨1, 38⟩⟩) ∧
      ((Validator.ofConfig ⟨0, [.fieldMustBeDefined]⟩).validate dogSchema strayFields).1 =
        [.fieldDoesNotExist "unknown" "Dog" ⟨none, ⟨1, 9⟩⟩,
          .fieldDoesNotExist "bogus" "Dog" ⟨none, ⟨1, 38⟩⟩] :=
  ⟨_, _, _, rfl, Document.stands_iff.mpr rfl, rfl, rfl,
    Document.undefined_iff.mpr ⟨_, rfl, .head _⟩, rfl⟩

end GraphQLStatics
