import GraphQLStatics.Proofs.DraftContents

/-!
# Merging extensions

Extensions are applied to the types one after another.  Each one changes the
type of its name and no other, keeps the kind, the name and the place of that
type, and adds its own content at the end.  So a type comes to consist of parts:
its definition, and then its extensions in order (`TypeContent.Merges`).

An extension is refused unless a type of its name and kind is declared.  Since
kinds do not change, this depends on the declared types alone and not on the
extensions before it (`extensionFaults`).

## Main Definitions

* `TypeContent.Merges`: a content that consists of parts
* `TypeContent.extendAll`, `TypeDef.extendedBy`: a type with extensions applied
* `extensionFaults`: what is wrong with an extension

## Main Statements

* `TypeContent.Merges.extendAll`: extensions are parts
* `meets_foldlM_applyExtension`: applying extensions one after another
-/

namespace GraphQLStatics

/-! ### Contents that consist of parts -/

namespace TypeBody

/-- The interfaces that an object declares. -/
def interfaces : TypeBody → List String
  | .object interfaces _ => interfaces
  | _ => []

/-- The fields of an object or interface. -/
def fields : TypeBody → List FieldDefinition
  | .object _ fields => fields
  | .interface fields => fields
  | _ => []

/-- The members of a union. -/
def members : TypeBody → List String
  | .union members => members
  | _ => []

/-- The values of an enum. -/
def values : TypeBody → List String
  | .enum values => values
  | _ => []

/-- The fields of an input object. -/
def inputFields : TypeBody → List InputValueDefinition
  | .inputObject fields => fields
  | _ => []

end TypeBody

namespace TypeContent

/-- The content consists of the parts, each of which has a path.  Interfaces,
members and values are strung together.  A field that is repeated keeps its first
place and is what the last part says. -/
def Merges (parts : List (String × TypeBody)) : TypeContent → Prop
  | .scalar => True
  | .object interfaces fields =>
    interfaces = parts.flatMap (·.2.interfaces) ∧
      fields.Gathers (parts.flatMap fun part => Field.entries part.1 part.2.fields)
  | .interface fields =>
    fields.Gathers (parts.flatMap fun part => Field.entries part.1 part.2.fields)
  | .union members => members = parts.flatMap (·.2.members)
  | .enum values => values = parts.flatMap (·.2.values)
  | .inputObject fields =>
    fields.Gathers (parts.flatMap fun part => Parameter.entries part.1 part.2.inputFields)

theorem kind_ofBody (path : String) (body : TypeBody) : (ofBody path body).kind = body.kind := by
  cases body <;> rfl

/-- A definition is a single part. -/
theorem merges_ofBody (path : String) (body : TypeBody) :
    (ofBody path body).Merges [(path, body)] := by
  cases body with
  | scalar => trivial
  | object interfaces fields =>
      simp only [ofBody, Merges, List.flatMap_singleton]
      exact ⟨rfl, OrderedMap.gathers_ofList _⟩
  | interface fields =>
      simp only [ofBody, Merges, List.flatMap_singleton]
      exact OrderedMap.gathers_ofList _
  | union members => exact (List.append_nil _).symm
  | enum values => exact (List.append_nil _).symm
  | inputObject fields =>
      simp only [ofBody, Merges, List.flatMap_singleton]
      exact OrderedMap.gathers_ofList _

theorem kind_eq_of_extend? {path : String} {content extended : TypeContent} {body : TypeBody}
    (ok : content.extend? path body = some extended) :
    extended.kind = content.kind ∧ content.kind = body.kind := by
  cases content <;> cases body <;> cases ok <;> exact ⟨rfl, rfl⟩

theorem exists_extend? (path : String) {content : TypeContent} {body : TypeBody}
    (same : content.kind = body.kind) : ∃ extended, content.extend? path body = some extended := by
  cases content <;> cases body <;> cases same <;> exact ⟨_, rfl⟩

/-- An extension of the same kind can be applied, and is one more part. -/
theorem Merges.extend? {parts : List (String × TypeBody)} {content : TypeContent}
    (merges : content.Merges parts) (path : String) {body : TypeBody}
    (same : content.kind = body.kind) :
    ∃ extended, content.extend? path body = some extended ∧
      extended.Merges (parts ++ [(path, body)]) := by
  cases content with
  | scalar =>
      cases body <;> cases same
      exact ⟨_, rfl, trivial⟩
  | object interfaces fields =>
      cases body <;> cases same
      refine ⟨_, rfl, ?_⟩
      simp only [Merges, List.flatMap_append, List.flatMap_singleton]
      exact ⟨congrArg (· ++ _) merges.1, merges.2.insertAll _⟩
  | interface fields =>
      cases body <;> cases same
      refine ⟨_, rfl, ?_⟩
      simp only [Merges, List.flatMap_append, List.flatMap_singleton]
      exact OrderedMap.Gathers.insertAll merges _
  | union members =>
      cases body <;> cases same
      refine ⟨_, rfl, ?_⟩
      simp only [Merges, List.flatMap_append, List.flatMap_singleton]
      exact congrArg (· ++ _) merges
  | enum values =>
      cases body <;> cases same
      refine ⟨_, rfl, ?_⟩
      simp only [Merges, List.flatMap_append, List.flatMap_singleton]
      exact congrArg (· ++ _) merges
  | inputObject fields =>
      cases body <;> cases same
      refine ⟨_, rfl, ?_⟩
      simp only [Merges, List.flatMap_append, List.flatMap_singleton]
      exact OrderedMap.Gathers.insertAll merges _

/-! ### Extensions one after another -/

/-- The content with extensions applied, where those of another kind add
nothing. -/
def extendAll (content : TypeContent) (extensions : List (String × TypeDefinition)) :
    TypeContent :=
  extensions.foldl (fun content ext => (content.extend? ext.1 ext.2.body).getD content) content

theorem kind_extendAll (content : TypeContent) (extensions : List (String × TypeDefinition)) :
    (content.extendAll extensions).kind = content.kind := by
  induction extensions generalizing content with
  | nil => rfl
  | cons ext rest ih =>
      have head : ((content.extend? ext.1 ext.2.body).getD content).kind = content.kind := by
        cases ok : content.extend? ext.1 ext.2.body with
        | none => rfl
        | some extended => exact (kind_eq_of_extend? ok).1
      exact (ih _).trans head

/-- **Extensions are parts.**  If they are of the kind of the content, they are
merged after what is there. -/
theorem Merges.extendAll {parts : List (String × TypeBody)} {content : TypeContent}
    (merges : content.Merges parts) {extensions : List (String × TypeDefinition)}
    (same : ∀ ext ∈ extensions, content.kind = ext.2.body.kind) :
    (content.extendAll extensions).Merges
      (parts ++ extensions.map fun ext => (ext.1, ext.2.body)) := by
  induction extensions generalizing content parts with
  | nil => rwa [List.map_nil, List.append_nil]
  | cons ext rest ih =>
      obtain ⟨extended, ok, merges'⟩ := merges.extend? ext.1 (same ext List.mem_cons_self)
      have step : content.extendAll (ext :: rest) = extended.extendAll rest := by
        show TypeContent.extendAll ((content.extend? ext.1 ext.2.body).getD content) rest = _
        rw [ok, Option.getD_some]
      rw [step, List.map_cons, ← List.singleton_append, ← List.append_assoc]
      refine ih merges' ?_
      intro other mem
      rw [(kind_eq_of_extend? ok).1]
      exact same other (List.mem_cons_of_mem _ mem)

end TypeContent

namespace TypeDef

/-- The type with those of the extensions applied that are about its name. -/
def extendedBy (extensions : List (String × TypeDefinition)) : TypeDef → TypeDef
  | .builtIn scalar => .builtIn scalar
  | .defined name place content =>
    .defined name place (content.extendAll (extensions.filter (·.2.name = name)))

@[simp] theorem extendedBy_nil (t : TypeDef) : t.extendedBy [] = t := by
  cases t <;> rfl

@[simp] theorem name_extendedBy (t : TypeDef) (extensions : List (String × TypeDefinition)) :
    (t.extendedBy extensions).name = t.name := by
  cases t <;> rfl

@[simp] theorem kind_extendedBy (t : TypeDef) (extensions : List (String × TypeDefinition)) :
    (t.extendedBy extensions).kind = t.kind := by
  cases t with
  | builtIn scalar => rfl
  | defined name place content => exact content.kind_extendAll _

theorem extendedBy_concat (t : TypeDef) (extensions : List (String × TypeDefinition))
    (ext : String × TypeDefinition) :
    t.extendedBy (extensions ++ [ext]) = (t.extendedBy extensions).extendedBy [ext] := by
  cases t with
  | builtIn scalar => rfl
  | defined name place content =>
      simp only [extendedBy, List.filter_append, TypeContent.extendAll, List.foldl_append]

/-- An extension leaves types of other names as they are. -/
theorem extendedBy_of_other {t : TypeDef} {ext : String × TypeDefinition}
    (other : t.name ≠ ext.2.name) : t.extendedBy [ext] = t := by
  cases t with
  | builtIn scalar => rfl
  | defined name place content =>
      have differs : ext.2.name ≠ name := Ne.symm other
      have none : [ext].filter (·.2.name = name) = [] := by
        simp [differs]
      rw [extendedBy, none]
      rfl

/-- An extension that can be applied to the type of its name. -/
theorem extendedBy_of_extend? {name : String} {place : Place} {content extended : TypeContent}
    {ext : String × TypeDefinition} (same : name = ext.2.name)
    (ok : content.extend? ext.1 ext.2.body = some extended) :
    (TypeDef.defined name place content).extendedBy [ext] = .defined name place extended := by
  have this : [ext].filter (·.2.name = name) = [ext] := by
    simp [same]
  rw [extendedBy, this]
  show TypeDef.defined name place ((content.extend? ext.1 ext.2.body).getD content) = _
  rw [ok, Option.getD_some]

end TypeDef

/-! ### Applying extensions -/

theorem BuiltInScalar.kind_ne_kind (scalar : BuiltInScalar) (body : TypeBody) :
    scalar.kind ≠ body.kind := by
  intro same
  cases scalar <;> cases body <;> cases same

/-- What is wrong with an extension of one of the types. -/
def extensionFaults (types : List (String × TypeDef)) (ext : String × TypeDefinition) :
    List SchemaFailure :=
  match types.lookup ext.2.name with
  | none => [.extensionOfUndefined ext.2.name ⟨some ext.1, ext.2.position⟩]
  | some t =>
    if t.kind = ext.2.body.kind then []
    else [.extensionOfOtherKind ext.2.name ⟨some ext.1, ext.2.position⟩ t.kind ext.2.body.kind]

theorem lookup_map_snd {α β : Type} (f : α → β) (entries : List (String × α)) (key : String) :
    (entries.map fun e => (e.1, f e.2)).lookup key = (entries.lookup key).map f := by
  induction entries with
  | nil => rfl
  | cons e rest ih =>
      rw [List.map_cons, List.lookup_cons, List.lookup_cons, ih]
      cases key == e.1 <;> rfl

/-- `types` are the declared types with extensions applied. -/
def ExtendedTypes (declared : List (String × TypeDef))
    (extensions : List (String × TypeDefinition)) (types : OrderedMap TypeDef) : Prop :=
  types.entries = declared.map fun e => (e.1, e.2.extendedBy extensions)

namespace ExtendedTypes

variable {declared : List (String × TypeDef)} {applied : List (String × TypeDefinition)}
  {types : OrderedMap TypeDef}

theorem find?_eq (extended : ExtendedTypes declared applied types) (name : String) :
    types.find? name = (declared.lookup name).map (TypeDef.extendedBy applied) := by
  rw [OrderedMap.find?, extended, lookup_map_snd]

theorem name_of_find? (extended : ExtendedTypes declared applied types)
    (keyed : ∀ e ∈ declared, e.1 = e.2.name) {name : String} {t : TypeDef}
    (found : types.find? name = some t) : t.name = name := by
  rw [types.find?_eq_some_iff, extended, List.mem_map] at found
  obtain ⟨e, isDeclared, same⟩ := found
  cases same
  rw [TypeDef.name_extendedBy, keyed e isDeclared]

/-- Replacing the type that an extension is about applies the extension. -/
theorem insert (extended : ExtendedTypes declared applied types)
    (keyed : ∀ e ∈ declared, e.1 = e.2.name) {ext : String × TypeDefinition} {t : TypeDef}
    (found : types.find? ext.2.name = some t) :
    ExtendedTypes declared (applied ++ [ext])
      (types.insert ext.2.name (t.extendedBy [ext])) := by
  have mem : (ext.2.name, t) ∈ types.entries := (types.find?_eq_some_iff _ _).mp found
  have present : ext.2.name ∈ types.keys := List.mem_map.mpr ⟨_, mem, rfl⟩
  rw [ExtendedTypes, OrderedMap.entries_insert_of_present present, extended, List.map_map]
  refine List.map_congr_left ?_
  intro e isDeclared
  rw [TypeDef.extendedBy_concat]
  show (if e.1 = ext.2.name then (e.1, t.extendedBy [ext])
    else (e.1, e.2.extendedBy applied)) = _
  by_cases same : e.1 = ext.2.name
  · have this : types.find? ext.2.name = some (e.2.extendedBy applied) := by
      rw [types.find?_eq_some_iff, extended, ← same]
      exact List.mem_map_of_mem isDeclared
    have sameType : t = e.2.extendedBy applied := Option.some.inj (found.symm.trans this)
    rw [if_pos same, sameType]
  · have other : (e.2.extendedBy applied).name ≠ ext.2.name := by
      rw [TypeDef.name_extendedBy, ← keyed e isDeclared]
      exact same
    rw [if_neg same, TypeDef.extendedBy_of_other other]

/-- Applying an extension fails if and only if it does not fit the declared
type of its name. -/
theorem meets_applyExtension (extended : ExtendedTypes declared applied types)
    (keyed : ∀ e ∈ declared, e.1 = e.2.name) (ext : String × TypeDefinition) :
    Meets (extensionFaults declared ext) (ExtendedTypes declared (applied ++ [ext]))
      (Draft.applyExtension types ext) := by
  have found := extended.find?_eq ext.2.name
  unfold extensionFaults Draft.applyExtension
  cases declares : declared.lookup ext.2.name with
  | none =>
      rw [declares] at found
      simp only [found, Option.map_none]
      rfl
  | some t =>
      rw [declares, Option.map_some] at found
      have sameName := extended.name_of_find? keyed found
      have sameKind := t.kind_extendedBy applied
      simp only [found]
      rw [← sameKind]
      generalize t.extendedBy applied = u at found sameName
      cases u with
      | builtIn scalar =>
          have differs : (TypeDef.builtIn scalar).kind ≠ ext.2.body.kind :=
            scalar.kind_ne_kind ext.2.body
          rw [if_neg differs]
          rfl
      | defined name place content =>
          have isName : name = ext.2.name := sameName
          have isKind : (TypeDef.defined name place content).kind = content.kind := rfl
          by_cases fits : content.kind = ext.2.body.kind
          · obtain ⟨content', ok⟩ := TypeContent.exists_extend? ext.1 fits
            have inserted := extended.insert keyed found
            rw [TypeDef.extendedBy_of_extend? isName ok] at inserted
            rw [isKind, if_pos fits]
            simp only [ok]
            exact ⟨rfl, inserted⟩
          · have refused : content.extend? ext.1 ext.2.body = none := by
              rw [Option.eq_none_iff_forall_ne_some]
              exact fun content' ok => fits (TypeContent.kind_eq_of_extend? ok).2
            rw [isKind, if_neg fits]
            simp only [refused]
            rfl

end ExtendedTypes

/-- Applying extensions fails with the first fault of any of them. -/
theorem meets_foldlM_applyExtension {types : OrderedMap TypeDef}
    (keyed : ∀ e ∈ types.entries, e.1 = e.2.name)
    (extensions : List (String × TypeDefinition)) :
    Meets (extensions.flatMap (extensionFaults types.entries))
      (ExtendedTypes types.entries extensions)
      (extensions.foldlM Draft.applyExtension types) := by
  have start : ExtendedTypes types.entries [] types := by
    simp [ExtendedTypes]
  have run := Meets.foldlM (fun _ => extensionFaults types.entries)
    (ExtendedTypes types.entries) (l := extensions)
    (fun _ ext _ _ _ extended => extended.meets_applyExtension keyed ext) start
  rwa [withEarlier_const] at run

end GraphQLStatics
