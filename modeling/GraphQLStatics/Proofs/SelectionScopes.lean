import GraphQLStatics.Proofs.Nesting

/-!
# Scopes of selections

Every selection of a document is made on a type, its *scope*, if that is known.
The scope is derived from the definition that holds the selection: the selections
of an operation are made on its root type and those of a fragment on the type of
its condition.  Below a field they are made on the innermost type of the field's
definition, and within an inline fragment on the type of its condition or else on
the scope of the inline fragment itself.  A scope is lost at a field that is not
defined and at a name that no type has.

This file states the derivation by rules, and shows that the walk along a document
follows it: the walk goes to every selection once, in the order of the document,
with the scope that can be derived.

## Main Definitions

* `Schema.ScopeBelow`: how a scope is entered and lost
* `SelectionSet.Stands`, `Document.Stands`: a selection stands at a site, with a
  scope
* `SelectionSite`, `SelectionSite.Before`: sites and their order

## Main Statements

* `Document.enumeratesIn_walk`: the walk follows the derivation
* `Document.Stands.exists_type?`: scopes are types of the schema
* `Document.Stands.reopens`: where a lost scope is found again
-/

namespace GraphQLStatics

/-! ### Within a selection set -/

/-- The selections right below a selection, which is made on the first type, are
made on the second. -/
inductive Schema.ScopeBelow (schema : Schema) :
    Option TypeDef → Selection → Option TypeDef → Prop
  | definedField {t : TypeDef} {f : FieldUse} {sub : SelectionSet} {d : Field}
      (defined : t.field? f.name = some d) :
      ScopeBelow schema (some t) (.field f sub) (schema.type? d.type.innermostName)
  | undefinedField {t : TypeDef} {f : FieldUse} {sub : SelectionSet}
      (undefined : t.field? f.name = none) : ScopeBelow schema (some t) (.field f sub) none
  | unscopedField (f : FieldUse) (sub : SelectionSet) :
      ScopeBelow schema none (.field f sub) none
  | condition (scope : Option TypeDef) {f : InlineUse} {sub : SelectionSet} {name : String}
      (named : f.condition = some name) :
      ScopeBelow schema scope (.inline f sub) (schema.type? name)
  | noCondition (scope : Option TypeDef) {f : InlineUse} {sub : SelectionSet}
      (unnamed : f.condition = none) : ScopeBelow schema scope (.inline f sub) scope

/-- Within the selection set, which is made on the first type, the selection stands
at the address and is made on the second type. -/
inductive SelectionSet.Stands (schema : Schema) :
    SelectionSet → Option TypeDef → List Nat → Selection → Option TypeDef → Prop
  | here {set : SelectionSet} {scope : Option TypeDef} {i : Nat} {s : Selection}
      (found : set.toList[i]? = some s) : Stands schema set scope [i] s scope
  | within {set : SelectionSet} {root inner scope : Option TypeDef} {i : Nat} {path : List Nat}
      {outer s : Selection} (found : set.toList[i]? = some outer)
      (enters : schema.ScopeBelow root outer inner)
      (rest : Stands schema outer.sub inner path s scope) :
      Stands schema set root (i :: path) s scope

namespace Schema

variable {schema : Schema} {scope inner : Option TypeDef} {s : Selection}

/-- The rules leave no choice. -/
theorem ScopeBelow.subScope_eq (enters : schema.ScopeBelow scope s inner) :
    schema.subScope scope s = inner := by
  cases enters with
  | definedField defined => simp [subScope, fieldScope, defined]
  | undefinedField undefined => simp [subScope, fieldScope, undefined]
  | unscopedField f sub => rfl
  | condition scope named => simp [subScope, inlineScope, named]
  | noCondition scope unnamed => simp [subScope, inlineScope, unnamed]

/-- Nothing stands below a spread, for which there is no rule. -/
theorem scopeBelow_subScope (schema : Schema) (scope : Option TypeDef)
    (notSpread : ∀ f, s ≠ .spread f) : schema.ScopeBelow scope s (schema.subScope scope s) := by
  cases s with
  | spread f => exact absurd rfl (notSpread f)
  | inline f sub =>
      cases named : f.condition with
      | none =>
          simp only [subScope, inlineScope, named]
          exact .noCondition scope named
      | some name =>
          simp only [subScope, inlineScope, named]
          exact .condition scope named
  | field f sub =>
      cases scope with
      | none => exact .unscopedField f sub
      | some t =>
          cases defined : t.field? f.name with
          | none =>
              simp only [subScope, fieldScope, Option.bind_some, defined, Option.bind_none]
              exact .undefinedField defined
          | some d =>
              simp only [subScope, fieldScope, Option.bind_some, defined]
              exact .definedField defined

end Schema

namespace SelectionSet

variable {schema : Schema} {set : SelectionSet} {root inner scope : Option TypeDef}
  {path : List Nat} {s : Selection}

theorem Stands.ne_nil (stands : set.Stands schema root path s scope) : path ≠ [] := by
  cases stands <;> exact List.cons_ne_nil _ _

theorem visitAt?_nil (schema : Schema) (root : Option TypeDef) (path : List Nat) :
    SelectionSet.nil.visitAt? schema root path = none := by
  rcases path with _ | ⟨i, _ | ⟨j, path⟩⟩ <;> rfl

/-- A selection stands where going down by indices leads. -/
theorem stands_iff :
    set.Stands schema root path s scope ↔ set.visitAt? schema root path = some ⟨s, scope⟩ := by
  constructor
  · intro stands
    induction stands with
    | here found => rw [visitAt?, found, Option.map_some]
    | @within set root inner scope i path outer s found enters rest ih =>
        obtain ⟨j, path, rfl⟩ := List.exists_cons_of_ne_nil rest.ne_nil
        rw [visitAt?, found, Option.bind_some, enters.subScope_eq]
        exact ih
  · intro atPath
    induction path generalizing set root with
    | nil => cases atPath
    | cons i path ih =>
        cases path with
        | nil =>
            rw [visitAt?, Option.map_eq_some_iff] at atPath
            obtain ⟨s, found, same⟩ := atPath
            cases same
            exact .here found
        | cons j path =>
            rw [visitAt?, Option.bind_eq_some_iff] at atPath
            obtain ⟨outer, found, atPath⟩ := atPath
            have notSpread : ∀ f, outer ≠ .spread f := by
              rintro f rfl
              rw [Selection.sub, visitAt?_nil] at atPath
              cases atPath
            exact .within found (schema.scopeBelow_subScope root notSpread) (ih atPath)

/-- What stands below a selection stands below its address. -/
theorem Stands.append {outer : Selection} {middle : Option TypeDef} {below : List Nat}
    (above : set.Stands schema root path outer middle)
    (enters : schema.ScopeBelow middle outer inner)
    (stands : outer.sub.Stands schema inner below s scope) :
    set.Stands schema root (path ++ below) s scope := by
  induction above with
  | here found => exact .within found enters stands
  | within found enters' _ ih => exact .within found enters' (ih enters stands)

/-- What stands below the address of a selection stands below the selection. -/
theorem Stands.of_append {outer : Selection} {middle : Option TypeDef} {below : List Nat}
    (above : set.Stands schema root path outer middle)
    (stands : set.Stands schema root (path ++ below) s scope) (isBelow : below ≠ []) :
    ∃ inner, schema.ScopeBelow middle outer inner ∧
      outer.sub.Stands schema inner below s scope := by
  induction above with
  | here found =>
      cases stands with
      | here found' => exact absurd rfl isBelow
      | within found' enters rest =>
          cases Option.some.inj (found'.symm.trans found)
          exact ⟨_, enters, rest⟩
  | @within set root inner middle i path first outer found enters rest' ih =>
      obtain ⟨j, path, rfl⟩ := List.exists_cons_of_ne_nil rest'.ne_nil
      cases stands with
      | within found' enters' rest =>
          cases Option.some.inj (found'.symm.trans found)
          cases enters'.subScope_eq.symm.trans enters.subScope_eq
          exact ih rest

/-- **A lost scope is found again at a type condition only.**  Take types of some
sort, such that types of other sorts have no fields.  If the scope of a selection is of
that sort and that of the whole set is not, then the selection stands within an inline
fragment whose condition names a type of that sort. -/
theorem Stands.exists_condition {sort : TypeDef → Prop} {t : TypeDef}
    (stands : set.Stands schema root path s (some t))
    (noFields : ∀ t, ¬ sort t → ∀ name, t.field? name = none)
    (lost : ∀ t ∈ root, ¬ sort t) (found : sort t) :
    ∃ above below f sub scope name type, path = above ++ below ∧ below ≠ [] ∧
      set.Stands schema root above (.inline f sub) scope ∧
      f.condition = some name ∧ schema.type? name = some type ∧ sort type := by
  generalize isKnown : some t = known at stands
  induction stands with
  | here _ => exact absurd found (lost t isKnown.symm)
  | @within set root inner _ i path outer s isOuter enters rest ih =>
      -- Unless the scope is found right here, it is found further below.
      have further (stillLost : ∀ t ∈ inner, ¬ sort t) : ∃ above below f sub scope name type,
          i :: path = above ++ below ∧ below ≠ [] ∧
          set.Stands schema root above (.inline f sub) scope ∧
          f.condition = some name ∧ schema.type? name = some type ∧ sort type := by
        obtain ⟨above, below, f, sub, scope, name, type, rfl, isBelow, stands, named, isType⟩ :=
          ih stillLost isKnown
        exact ⟨i :: above, below, f, sub, scope, name, type, rfl, isBelow,
          .within isOuter enters stands, named, isType⟩
      cases enters with
      | @definedField t f sub d defined =>
          rw [noFields t (lost t rfl)] at defined
          cases defined
      | undefinedField _ => exact further nofun
      | unscopedField f sub => exact further nofun
      | noCondition _ unnamed => exact further lost
      | @condition _ f sub name named =>
          by_cases reopened : ∃ type, schema.type? name = some type ∧ sort type
          · obtain ⟨type, isType, found⟩ := reopened
            exact ⟨[i], path, f, sub, root, name, type, rfl, rest.ne_nil, .here isOuter, named,
              isType, found⟩
          · exact further fun type isType found => reopened ⟨type, isType, found⟩

/-- Scopes are types of the schema. -/
theorem Stands.exists_type? (stands : set.Stands schema root path s scope)
    (isType : ∀ t ∈ root, ∃ name, schema.type? name = some t) :
    ∀ t ∈ scope, ∃ name, schema.type? name = some t := by
  induction stands with
  | here found => exact isType
  | within found enters rest ih =>
      refine ih ?_
      cases enters with
      | definedField defined => exact fun t isType => ⟨_, isType⟩
      | undefinedField undefined => exact nofun
      | unscopedField f sub => exact nofun
      | condition scope named => exact fun t isType => ⟨_, isType⟩
      | noCondition scope unnamed => exact isType

end SelectionSet

/-! ### Within a document -/

/-- A definition that holds selections, by its index among the operations of a
document or among its fragments. -/
inductive Holder where
  | operation (index : Nat)
  | fragment (index : Nat)
  deriving DecidableEq, Repr

/-- Where a selection stands in a document. -/
structure SelectionSite where
  holder : Holder
  address : List Nat
  deriving DecidableEq, Repr

/-- Operations come before fragments, definitions of the same kind in their order,
and the selections of a definition in the order of their addresses, which puts each
selection before those below it. -/
inductive SelectionSite.Before : SelectionSite → SelectionSite → Prop
  | operations {i j : Nat} (less : i < j) (a b : List Nat) :
      Before ⟨.operation i, a⟩ ⟨.operation j, b⟩
  | kinds (i j : Nat) (a b : List Nat) : Before ⟨.operation i, a⟩ ⟨.fragment j, b⟩
  | fragments {i j : Nat} (less : i < j) (a b : List Nat) :
      Before ⟨.fragment i, a⟩ ⟨.fragment j, b⟩
  | addresses (holder : Holder) {a b : List Nat} (isBefore : List.Lex (· < ·) a b) :
      Before ⟨holder, a⟩ ⟨holder, b⟩

theorem SelectionSite.Before.irrefl (site : SelectionSite) : ¬ site.Before site := by
  intro isBefore
  cases isBefore with
  | operations less a b => exact Nat.lt_irrefl _ less
  | fragments less a b => exact Nat.lt_irrefl _ less
  | addresses holder isBefore => exact List.lex_irrefl Nat.lt_irrefl _ isBefore

/-- The type that the selections of an operation are made on. -/
def Schema.rootScope (schema : Schema) : OperationKind → Option TypeDef
  | .query => schema.type? schema.query
  | .mutation => schema.mutation.bind schema.type?
  | .subscription => schema.subscription.bind schema.type?

theorem Schema.rootScope_eq (schema : Schema) (kind : OperationKind) :
    schema.rootScope kind = schema.root? kind := by
  cases kind <;> rfl

theorem Schema.exists_of_rootScope {schema : Schema} {kind : OperationKind} {t : TypeDef}
    (isRoot : schema.rootScope kind = some t) : ∃ name, schema.type? name = some t := by
  rw [rootScope_eq] at isRoot
  obtain ⟨name, -, isType⟩ := Option.bind_eq_some_iff.mp isRoot
  exact ⟨name, isType⟩

namespace Document

/-- The definition holds the selection set, which is made on the type. -/
inductive Holds (schema : Schema) (doc : Document) :
    Holder → SelectionSet → Option TypeDef → Prop
  | operation {i : Nat} {op : Operation} (defined : doc.operations[i]? = some op) :
      Holds schema doc (.operation i) op.selections (schema.rootScope op.kind)
  | fragment {i : Nat} {frag : Fragment} (defined : doc.fragments[i]? = some frag) :
      Holds schema doc (.fragment i) frag.selections (schema.type? frag.condition)

/-- The selection stands at the site and is made on the type. -/
def Stands (schema : Schema) (doc : Document) (site : SelectionSite) (s : Selection)
    (scope : Option TypeDef) : Prop :=
  ∃ set root, doc.Holds schema site.holder set root ∧
    set.Stands schema root site.address s scope

/-- The selection at a site with its scope. -/
def visitAt? (schema : Schema) (doc : Document) : SelectionSite → Option Visit
  | ⟨.operation i, address⟩ =>
    (doc.operations[i]?).bind fun op =>
      op.selections.visitAt? schema (schema.rootScope op.kind) address
  | ⟨.fragment i, address⟩ =>
    (doc.fragments[i]?).bind fun frag =>
      frag.selections.visitAt? schema (schema.fragmentScope frag) address

variable {schema : Schema} {doc : Document}

/-- A selection stands where going down by indices leads. -/
theorem stands_iff {site : SelectionSite} {s : Selection} {scope : Option TypeDef} :
    doc.Stands schema site s scope ↔ doc.visitAt? schema site = some ⟨s, scope⟩ := by
  obtain ⟨holder, address⟩ := site
  constructor
  · rintro ⟨set, root, holds, stands⟩
    cases holds with
    | operation defined =>
        rw [visitAt?, defined, Option.bind_some]
        exact SelectionSet.stands_iff.mp stands
    | fragment defined =>
        rw [visitAt?, defined, Option.bind_some]
        exact SelectionSet.stands_iff.mp stands
  · intro atSite
    cases holder with
    | operation i =>
        obtain ⟨op, defined, atSite⟩ := Option.bind_eq_some_iff.mp atSite
        exact ⟨_, _, .operation defined, SelectionSet.stands_iff.mpr atSite⟩
    | fragment i =>
        obtain ⟨frag, defined, atSite⟩ := Option.bind_eq_some_iff.mp atSite
        exact ⟨_, _, .fragment defined, SelectionSet.stands_iff.mpr atSite⟩

/-- **The walk follows the derivation of scopes.**  It goes to the selection at each
site once, in the order of sites, with its scope. -/
theorem enumeratesIn_walk (schema : Schema) (doc : Document) :
    EnumeratesIn SelectionSite.Before (doc.visitAt? schema) (doc.walk schema) := by
  have inOperations := (EnumeratesIn.getElem? doc.operations).bind fun op _ =>
    op.selections.enumeratesIn_walk schema (schema.rootScope op.kind)
  have inFragments := (EnumeratesIn.getElem? doc.fragments).bind fun frag _ =>
    frag.selections.enumeratesIn_walk schema (schema.fragmentScope frag)
  have whole : doc.walk schema =
      doc.operations.flatMap (fun op => op.selections.walk schema (schema.rootScope op.kind)) ++
        doc.fragments.flatMap (Fragment.walk schema) := by
    simp only [Schema.rootScope_eq]
    rfl
  rw [whole]
  refine (inOperations.sum inFragments).rename
    (Sum.elim (fun p => ⟨.operation p.1, p.2⟩) fun p => ⟨.fragment p.1, p.2⟩) ?_ ?_ ?_
  · rintro _ _ - - (isBefore | isBefore | ⟨p, q⟩)
    · cases isBefore with
      | left a b less => exact .operations less a b
      | right i isBefore => exact .addresses _ isBefore
    · cases isBefore with
      | left a b less => exact .fragments less a b
      | right i isBefore => exact .addresses _ isBefore
    · exact .kinds p.1 q.1 p.2 q.2
  · rintro (⟨i, address⟩ | ⟨i, address⟩) - <;> rfl
  · rintro ⟨i | i, address⟩ live
    · exact ⟨.inl (i, address), live, rfl⟩
    · exact ⟨.inr (i, address), live, rfl⟩

theorem Holds.unique {holder : Holder} {set set' : SelectionSet} {root root' : Option TypeDef}
    (holds : doc.Holds schema holder set root) (holds' : doc.Holds schema holder set' root') :
    set = set' ∧ root = root' := by
  cases holds with
  | operation defined =>
      cases holds' with
      | operation defined' =>
          cases Option.some.inj (defined.symm.trans defined')
          exact ⟨rfl, rfl⟩
  | fragment defined =>
      cases holds' with
      | fragment defined' =>
          cases Option.some.inj (defined.symm.trans defined')
          exact ⟨rfl, rfl⟩

/-- Scopes are types of the schema. -/
theorem Stands.exists_type? {site : SelectionSite} {s : Selection} {t : TypeDef}
    (stands : doc.Stands schema site s (some t)) : ∃ name, schema.type? name = some t := by
  obtain ⟨holder, address⟩ := site
  obtain ⟨set, root, holds, stands⟩ := stands
  refine stands.exists_type? ?_ t rfl
  cases holds with
  | operation defined => exact fun t isRoot => Schema.exists_of_rootScope isRoot
  | fragment defined => exact fun t isType => ⟨_, isType⟩

/-- Between the first address and the second, which is given by what follows the
first, there is an inline fragment whose condition names a type of the sort. -/
def Reopens (schema : Schema) (sort : TypeDef → Prop) (doc : Document) (holder : Holder)
    (path below : List Nat) : Prop :=
  ∃ middle rest f sub scope name t, below = middle ++ rest ∧ middle ≠ [] ∧ rest ≠ [] ∧
    doc.Stands schema ⟨holder, path ++ middle⟩ (.inline f sub) scope ∧
    f.condition = some name ∧ schema.type? name = some t ∧ sort t

/-- **Below a lost scope** only an inline fragment whose condition names a type makes
a scope known. -/
theorem Stands.reopens {sort : TypeDef → Prop} {holder : Holder} {path below : List Nat}
    {outer s : Selection} {scope : Option TypeDef} {t : TypeDef}
    (above : doc.Stands schema ⟨holder, path⟩ outer scope)
    (lost : schema.ScopeBelow scope outer none)
    (noFields : ∀ t, ¬ sort t → ∀ name, t.field? name = none) (isBelow : below ≠ [])
    (stands : doc.Stands schema ⟨holder, path ++ below⟩ s (some t)) (found : sort t) :
    doc.Reopens schema sort holder path below := by
  obtain ⟨set, root, holds, above⟩ := above
  obtain ⟨set', root', holds', stands⟩ := stands
  obtain ⟨rfl, rfl⟩ := holds.unique holds'
  obtain ⟨inner, enters, stands⟩ := above.of_append stands isBelow
  cases enters.subScope_eq.symm.trans lost.subScope_eq
  obtain ⟨middle, rest, f, sub, scope', name, t', rfl, notEmpty, inline, named, isType⟩ :=
    stands.exists_condition noFields nofun found
  exact ⟨middle, rest, f, sub, scope', name, t', rfl, inline.ne_nil, notEmpty,
    ⟨set, root, holds, above.append lost inline⟩, named, isType⟩

end Document

end GraphQLStatics
