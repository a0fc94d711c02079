import GraphQLStatics.Proofs.Enumeration
import GraphQLStatics.Proofs.SchemaInvariant

/-!
# What a type can be

A value of a composite type is an object.  Which objects it can be is declared in two
ways: an object lists its interfaces, and a union lists its members.  Extensions add to
both, from any file, and what they name may be missing or no object.

This file says what the sources of a schema declare (`Schema.CanBe`), and shows that
look-up by name in the schema that was built agrees with it.  Two different types
overlap if and only if some object can be of both.  A composite type overlaps with
itself even if there is no such object.

## Main Definitions

* `declaredInterfaces`, `declaredMembers`: what definitions and extensions list
* `Schema.CanBe`: a value of a type can be an object
* `Schema.ListsAlong`: possible types are listed in an order of names

## Main Statements

* `Schema.BuiltFrom.mem_possibleTypes_iff`: possible types are those declared
* `ofLoads_possibleTypes`: possible types and their order
* `overlap_iff_canBe`: when types overlap
-/

namespace GraphQLStatics

/-! ### What sources declare -/

/-- The interfaces that the definition and the extensions of an object list, in
order. -/
def declaredInterfaces (sources : List Source) (object : String) : List String :=
  (partsOf object sources).flatMap (·.2.body.interfaces)

/-- The members that the definition and the extensions of a union list, in order. -/
def declaredMembers (sources : List Source) (union : String) : List String :=
  (partsOf union sources).flatMap (·.2.body.members)

/-- A value of the type `t` can be the object `o` of the schema: it is `o`, or `t` is an
interface that `o` lists, or `t` is a union that lists `o`. -/
structure Schema.CanBe (schema : Schema) (sources : List Source) (t o : TypeDef) : Prop where
  isType : schema.type? o.name = some o
  isObject : o.kind = .object
  declared : t = o ∨
    (t.kind = .interface ∧ t.name ∈ declaredInterfaces sources o.name) ∨
    (t.kind = .union ∧ o.name ∈ declaredMembers sources t.name)

/-- The possible types of `t` follow the names.  Each name gives the object of that name,
if there is one that `t` can be, and otherwise nothing. -/
def Schema.ListsAlong (schema : Schema) (sources : List Source) (t : TypeDef)
    (names : List String) : Prop :=
  ReportsIn (· < ·) (fun (i : Nat) o => names[i]? = some o.name ∧ schema.CanBe sources t o)
    (schema.possibleTypes t)

theorem TypeDef.isObject_iff (t : TypeDef) : t.isObject = true ↔ t.kind = .object :=
  decide_eq_true_iff

/-- Only composite types have possible types. -/
theorem Schema.CanBe.isComposite {schema : Schema} {sources : List Source} {t o : TypeDef}
    (canBe : schema.CanBe sources t o) : t.isComposite = true := by
  rw [TypeDef.isComposite]
  rcases canBe.declared with rfl | ⟨kind, -⟩ | ⟨kind, -⟩
  · rw [canBe.isObject]; rfl
  · rw [kind]; rfl
  · rw [kind]; rfl

/-! ### Look-up by name -/

namespace Schema.BuiltFrom

variable {schema : Schema} {sources : List Source} {key : String} {t o : TypeDef}

/-- An object lists what its definition and its extensions do, and no other type lists
interfaces. -/
theorem implements_iff (built : schema.BuiltFrom sources) (buildable : Buildable sources)
    (isType : schema.type? key = some o) (interface : String) :
    o.implements interface = true ↔
      o.kind = .object ∧ interface ∈ declaredInterfaces sources o.name := by
  cases o with
  | builtIn scalar => cases scalar <;> simp [TypeDef.implements, TypeDef.interfaces?, TypeDef.kind,
      BuiltInScalar.kind]
  | defined name place content =>
      have merges := built.merges_of_type? buildable isType
      cases content with
      | object interfaces fields =>
          have listed : interfaces = declaredInterfaces sources name := by
            rw [merges.1, List.flatMap_map]
            rfl
          simp [TypeDef.implements, TypeDef.interfaces?, TypeDef.kind, TypeContent.kind, listed,
            TypeDef.name]
      | _ => simp [TypeDef.implements, TypeDef.interfaces?, TypeDef.kind, TypeContent.kind]

/-- A union lists what its definition and its extensions do. -/
theorem members_eq (built : schema.BuiltFrom sources) (buildable : Buildable sources)
    {name : String} {place : Place} {members : List String}
    (isType : schema.type? key = some (.defined name place (.union members))) :
    members = declaredMembers sources name := by
  have merges : members = _ := built.merges_of_type? buildable isType
  rw [merges, List.flatMap_map]
  rfl

/-- Built-in scalars implement nothing, so implementers are found by going through the
definitions. -/
theorem filter_implements (built : schema.BuiltFrom sources) (interface : String) :
    schema.types.values.filter (·.implements interface) =
      (((typesOf sources).map (·.2.name)).filterMap schema.type?).filter
        (·.implements interface) := by
  have scalars : (scalarNames.filterMap schema.type?).filter
      (·.implements interface) = [] := by
    refine List.filter_eq_nil_iff.mpr fun t mem => ?_
    obtain ⟨name, isName, isType⟩ := List.mem_filterMap.mp mem
    have isName : name ∈ builtInTypes.map Prod.fst := isName
    obtain ⟨e, isBuiltIn, rfl⟩ := List.mem_map.mp isName
    obtain ⟨scalar, rfl⟩ := mem_builtInTypes.mp isBuiltIn
    cases (built.type?_builtIn scalar).symm.trans isType
    exact Bool.false_ne_true
  rw [← OrderedMap.filterMap_find?_keys, built.keys_types, List.filterMap_append,
    List.filter_append]
  show List.filter _ (List.filterMap schema.type? _) ++ _ = _
  rw [scalars, List.nil_append]
  rfl

theorem mem_values_iff (built : schema.BuiltFrom sources) :
    o ∈ schema.types.values ↔ schema.type? o.name = some o := by
  rw [← OrderedMap.filterMap_find?_keys, List.mem_filterMap]
  constructor
  · rintro ⟨key, -, isType⟩
    rwa [built.name_of_type? isType]
  · intro isType
    have isKey : o.name ∈ schema.types.keys := by
      by_contra absent
      cases ((schema.types.find?_eq_none_iff _).mpr absent).symm.trans isType
    exact ⟨o.name, isKey, isType⟩

/-- **Possible types are those declared.** -/
theorem mem_possibleTypes_iff (built : schema.BuiltFrom sources) (buildable : Buildable sources)
    (isType : schema.type? key = some t) :
    o ∈ schema.possibleTypes t ↔ schema.CanBe sources t o := by
  rw [← built.name_of_type? isType] at isType
  cases t with
  | builtIn scalar =>
      refine ⟨nofun, fun canBe => absurd canBe.isComposite ?_⟩
      cases scalar <;> exact Bool.false_ne_true
  | defined name place content =>
      cases content with
      | object interfaces fields =>
          rw [possibleTypes, List.mem_singleton]
          constructor
          · rintro rfl
            exact ⟨isType, rfl, .inl rfl⟩
          · rintro ⟨-, -, same | ⟨kind, -⟩ | ⟨kind, -⟩⟩
            · exact same.symm
            · cases kind
            · cases kind
      | interface fields =>
          rw [possibleTypes, List.mem_filter, built.mem_values_iff]
          constructor
          · rintro ⟨isType, implements⟩
            obtain ⟨kind, listed⟩ := (built.implements_iff buildable isType name).mp implements
            exact ⟨isType, kind, .inr (.inl ⟨rfl, listed⟩)⟩
          · rintro ⟨isType, kind, rfl | ⟨-, listed⟩ | ⟨union, -⟩⟩
            · cases kind
            · exact ⟨isType, (built.implements_iff buildable isType name).mpr ⟨kind, listed⟩⟩
            · cases union
      | union members =>
          obtain rfl := built.members_eq buildable isType
          rw [possibleTypes, List.mem_filter, List.mem_filterMap, TypeDef.isObject_iff]
          constructor
          · rintro ⟨⟨key, listed, isType⟩, kind⟩
            obtain rfl := built.name_of_type? isType
            exact ⟨isType, kind, .inr (.inr ⟨rfl, listed⟩)⟩
          · rintro ⟨isType, kind, rfl | ⟨interface, -⟩ | ⟨-, listed⟩⟩
            · cases kind
            · cases interface
            · exact ⟨⟨o.name, listed, isType⟩, kind⟩
      | scalar | enum | inputObject =>
          exact ⟨nofun, fun canBe => absurd canBe.isComposite Bool.false_ne_true⟩

/-- Possible types that are looked up name by name are listed along the names. -/
theorem listsAlong (built : schema.BuiltFrom sources) (buildable : Buildable sources)
    (isType : schema.type? key = some t) {names : List String} {test : TypeDef → Bool}
    (lookedUp : schema.possibleTypes t = (names.filterMap schema.type?).filter test) :
    schema.ListsAlong sources t names := by
  have isPossible : ∀ o, schema.CanBe sources t o ↔
      (∃ name ∈ names, schema.type? name = some o) ∧ test o = true := by
    intro o
    rw [← built.mem_possibleTypes_iff buildable isType, lookedUp, List.mem_filter,
      List.mem_filterMap]
  have found := (((EnumeratesIn.getElem? names).filterMap schema.type?).filterMap
    (Option.guard test)).reportsIn Nat.lt_irrefl
  rw [List.filterMap_eq_filter, ← lookedUp] at found
  refine found.congr fun i o => ?_
  simp only [Option.bind_eq_some_iff, Option.guard_eq_some_iff]
  constructor
  · rintro ⟨_, ⟨name, isName, isType⟩, rfl, passes⟩
    rw [built.name_of_type? isType]
    exact ⟨isName, (isPossible _).mpr ⟨⟨name, List.mem_of_getElem? isName, isType⟩, passes⟩⟩
  · rintro ⟨isName, canBe⟩
    exact ⟨o, ⟨o.name, isName, canBe.isType⟩, rfl, ((isPossible o).mp canBe).2⟩

/-- Types are told apart by their names. -/
theorem nodup_names (built : schema.BuiltFrom sources) :
    (schema.types.values.map TypeDef.name).Nodup := by
  have names : schema.types.values.map TypeDef.name = schema.types.keys := by
    rw [OrderedMap.values, OrderedMap.keys, List.map_map]
    exact List.map_congr_left fun e mem => (built.keyedBy_types e mem).symm
  rw [names]
  exact schema.types.nodup

theorem isPossible_iff (built : schema.BuiltFrom sources) (buildable : Buildable sources)
    (isType : schema.type? key = some t) (name : String) :
    schema.isPossible t name = true ↔ ∃ o, schema.CanBe sources t o ∧ o.name = name := by
  simp [isPossible, built.mem_possibleTypes_iff buildable isType]

end Schema.BuiltFrom

/-! ### Possible types -/

/-- **Possible types agree with what is declared**, in a schema that was built from any
loads.  Those of an interface follow the definitions of types, without repetition, and
those of a union follow its members. -/
theorem ofLoads_possibleTypes (loads : List Load) (schema : Schema)
    (ok : Schema.ofLoads loads = .ok schema) (key : String) (t : TypeDef)
    (isType : schema.type? key = some t) :
    (∀ name, schema.isPossible t name = true ↔
      ∃ o, schema.CanBe (sourcesOf loads) t o ∧ o.name = name) ∧
    (t.kind = .interface →
      schema.ListsAlong (sourcesOf loads) t ((typesOf (sourcesOf loads)).map (·.2.name)) ∧
        ((schema.possibleTypes t).map TypeDef.name).Nodup) ∧
    (t.kind = .union →
      schema.ListsAlong (sourcesOf loads) t (declaredMembers (sourcesOf loads) t.name)) := by
  obtain ⟨built, buildable⟩ := Schema.builtFrom_of_ofLoads ok
  refine ⟨built.isPossible_iff buildable isType, fun kind => ?_, fun kind => ?_⟩
  · match t, kind with
    | .defined name place (.interface fields), _ =>
        refine ⟨built.listsAlong buildable isType (built.filter_implements name), ?_⟩
        exact built.nodup_names.sublist (List.filter_sublist.map _)
  · match t, kind with
    | .defined name place (.union members), _ =>
        rw [TypeDef.name, ← built.members_eq buildable isType]
        exact built.listsAlong buildable isType rfl

/-- `type Query { pet: Pet }`, `interface Pet { name: String }`,
`interface Ghost { name: String }`, `type Dog { name: String }`,
`type Cat implements Pet { name: String }` and `union Animal = Cat | Robot | Dog | Pet | Cat` in a
file, and `extend type Dog implements Pet` and `extend union Animal = Dog` in another. -/
def animalLoads : List Load :=
  [⟨some "animals.graphql",
    [.type ⟨⟨1, 1⟩, "Query", .object [] [⟨⟨1, 14⟩, "pet", [], .named "Pet"⟩]⟩,
     .type ⟨⟨2, 1⟩, "Pet", .interface [⟨⟨2, 17⟩, "name", [], .named "String"⟩]⟩,
     .type ⟨⟨3, 1⟩, "Ghost", .interface [⟨⟨3, 19⟩, "name", [], .named "String"⟩]⟩,
     .type ⟨⟨4, 1⟩, "Dog", .object [] [⟨⟨4, 12⟩, "name", [], .named "String"⟩]⟩,
     .type ⟨⟨5, 1⟩, "Cat", .object ["Pet"] [⟨⟨5, 27⟩, "name", [], .named "String"⟩]⟩,
     .type ⟨⟨6, 1⟩, "Animal", .union ["Cat", "Robot", "Dog", "Pet", "Cat"]⟩]⟩,
   ⟨some "more.graphql",
    [.extension ⟨⟨1, 8⟩, "Dog", .object ["Pet"] []⟩,
     .extension ⟨⟨2, 8⟩, "Animal", .union ["Dog"]⟩]⟩]

/-- The schema of these files. -/
def animalSchema : Schema :=
  match Schema.ofLoads animalLoads with
  | .ok schema => schema
  | .error _ => ⟨.empty, .empty, "Query", none, none⟩

/-- Dogs are pets by an extension, and come before cats since they are defined before
them.  A member of a union that is listed again is possible again, and those that are
missing or no objects are left out. -/
theorem ofLoads_possibleTypes_animals :
    ∃ pet animal, Schema.ofLoads animalLoads = .ok animalSchema ∧
      animalSchema.type? "Pet" = some pet ∧ pet.kind = .interface ∧
      animalSchema.type? "Animal" = some animal ∧ animal.kind = .union ∧
      (animalSchema.possibleTypes pet).map TypeDef.name = ["Dog", "Cat"] ∧
      animalSchema.ListsAlong (sourcesOf animalLoads) pet
        ["Query", "Pet", "Ghost", "Dog", "Cat", "Animal"] ∧
      (animalSchema.possibleTypes animal).map TypeDef.name = ["Cat", "Dog", "Cat", "Dog"] ∧
      animalSchema.ListsAlong (sourcesOf animalLoads) animal
        ["Cat", "Robot", "Dog", "Pet", "Cat", "Dog"] := by
  refine ⟨_, _, rfl, rfl, rfl, rfl, rfl, rfl, ?_, rfl, ?_⟩
  · exact ((ofLoads_possibleTypes animalLoads animalSchema rfl "Pet" _ rfl).2.1 rfl).1
  · exact (ofLoads_possibleTypes animalLoads animalSchema rfl "Animal" _ rfl).2.2 rfl

/-! ### Overlap -/

namespace Schema.BuiltFrom

variable {schema : Schema} {sources : List Source} {key other : String} {a b : TypeDef}

/-- Types overlap if some object can be of both.  A composite type overlaps with itself,
whether or not there are objects that it can be. -/
theorem overlap_iff (built : schema.BuiltFrom sources) (buildable : Buildable sources)
    (isA : schema.type? key = some a) (isB : schema.type? other = some b) :
    schema.overlap a b = true ↔
      (∃ o, schema.CanBe sources a o ∧ schema.CanBe sources b o) ∨
        (a = b ∧ a.isComposite = true) := by
  unfold overlap
  by_cases same : a.name = b.name
  · obtain rfl := built.eq_of_name isA isB same
    rw [if_pos rfl]
    constructor
    · exact fun composite => .inr ⟨rfl, composite⟩
    · rintro (⟨o, canBe, -⟩ | ⟨-, composite⟩)
      · exact canBe.isComposite
      · exact composite
  · have differ : a ≠ b := fun eq => same (eq ▸ rfl)
    rw [if_neg same, List.any_eq_true]
    constructor
    · rintro ⟨o, mem, possible⟩
      have canBe := (built.mem_possibleTypes_iff buildable isA).mp mem
      obtain ⟨o', canBe', sameName⟩ := (built.isPossible_iff buildable isB _).mp possible
      obtain rfl := built.eq_of_name canBe'.isType canBe.isType sameName
      exact .inl ⟨o', canBe, canBe'⟩
    · rintro (⟨o, canBe, canBe'⟩ | ⟨eq, -⟩)
      · refine ⟨o, (built.mem_possibleTypes_iff buildable isA).mpr canBe, ?_⟩
        exact (built.isPossible_iff buildable isB _).mpr ⟨o, canBe', rfl⟩
      · exact absurd eq differ

end Schema.BuiltFrom

/-- **When types overlap**, in a schema that was built from any loads.  It is a matter of
objects that can be of both types, with one exception: a composite type that no object
can be overlaps with itself.  Overlap is symmetric. -/
theorem overlap_iff_canBe (loads : List Load) (schema : Schema)
    (ok : Schema.ofLoads loads = .ok schema) (keyA keyB : String) (a b : TypeDef)
    (isA : schema.type? keyA = some a) (isB : schema.type? keyB = some b) :
    (schema.overlap a b = true ↔
      (∃ o, schema.CanBe (sourcesOf loads) a o ∧ schema.CanBe (sourcesOf loads) b o) ∨
        (a = b ∧ a.isComposite = true ∧ ¬ ∃ o, schema.CanBe (sourcesOf loads) a o)) ∧
    schema.overlap a b = schema.overlap b a := by
  obtain ⟨built, buildable⟩ := Schema.builtFrom_of_ofLoads ok
  have overlaps := built.overlap_iff buildable isA isB
  constructor
  · rw [overlaps]
    constructor
    · rintro (common | ⟨rfl, composite⟩)
      · exact .inl common
      · by_cases inhabited : ∃ o, schema.CanBe (sourcesOf loads) a o
        · obtain ⟨o, canBe⟩ := inhabited
          exact .inl ⟨o, canBe, canBe⟩
        · exact .inr ⟨rfl, composite, inhabited⟩
    · rintro (common | ⟨same, composite, -⟩)
      · exact .inl common
      · exact .inr ⟨same, composite⟩
  · rw [Bool.eq_iff_iff, overlaps, built.overlap_iff buildable isB isA]
    refine or_congr (exists_congr fun o => And.comm) ?_
    constructor
    · rintro ⟨rfl, composite⟩
      exact ⟨rfl, composite⟩
    · rintro ⟨rfl, composite⟩
      exact ⟨rfl, composite⟩

/-- Pets and animals have dogs in common, and pets and ghosts have nothing in common. -/
theorem overlap_iff_canBe_animals :
    ∃ pet animal ghost, Schema.ofLoads animalLoads = .ok animalSchema ∧
      animalSchema.type? "Pet" = some pet ∧ animalSchema.type? "Animal" = some animal ∧
      animalSchema.type? "Ghost" = some ghost ∧ pet ≠ animal ∧
      (∃ o, animalSchema.CanBe (sourcesOf animalLoads) pet o ∧
        animalSchema.CanBe (sourcesOf animalLoads) animal o) ∧
      ¬ ∃ o, animalSchema.CanBe (sourcesOf animalLoads) pet o ∧
        animalSchema.CanBe (sourcesOf animalLoads) ghost o := by
  obtain ⟨pet, animal, ghost, isPet, isAnimal, isGhost, interface, union, overlaps, apart⟩ :
      ∃ pet animal ghost, animalSchema.type? "Pet" = some pet ∧
        animalSchema.type? "Animal" = some animal ∧ animalSchema.type? "Ghost" = some ghost ∧
        pet.kind = .interface ∧ animal.kind = .union ∧
        animalSchema.overlap pet animal = true ∧ animalSchema.overlap pet ghost = false :=
    ⟨_, _, _, rfl, rfl, rfl, rfl, rfl, rfl, rfl⟩
  have differ : pet ≠ animal := by
    rintro rfl
    cases interface.symm.trans union
  have both := overlap_iff_canBe animalLoads animalSchema rfl _ _ _ _ isPet isAnimal
  have none := overlap_iff_canBe animalLoads animalSchema rfl _ _ _ _ isPet isGhost
  refine ⟨pet, animal, ghost, rfl, isPet, isAnimal, isGhost, differ, ?_, fun common => ?_⟩
  · exact (both.1.mp overlaps).resolve_right fun exception => differ exception.1
  · cases apart.symm.trans (none.1.mpr (.inl common))

/-- **Ghosts overlap with themselves**, although there are none. -/
theorem overlap_of_uninhabited :
    ∃ ghost, Schema.ofLoads animalLoads = .ok animalSchema ∧
      animalSchema.type? "Ghost" = some ghost ∧ animalSchema.overlap ghost ghost = true ∧
      ¬ ∃ o, animalSchema.CanBe (sourcesOf animalLoads) ghost o ∧
        animalSchema.CanBe (sourcesOf animalLoads) ghost o := by
  have ok : Schema.ofLoads animalLoads = .ok animalSchema := rfl
  obtain ⟨built, buildable⟩ := Schema.builtFrom_of_ofLoads ok
  obtain ⟨ghost, isGhost, overlaps, none⟩ : ∃ ghost, animalSchema.type? "Ghost" = some ghost ∧
      animalSchema.overlap ghost ghost = true ∧ animalSchema.possibleTypes ghost = [] :=
    ⟨_, rfl, rfl, rfl⟩
  refine ⟨ghost, ok, isGhost, overlaps, ?_⟩
  rintro ⟨o, canBe, -⟩
  have mem := (built.mem_possibleTypes_iff buildable isGhost).mpr canBe
  rw [none] at mem
  cases mem

end GraphQLStatics
