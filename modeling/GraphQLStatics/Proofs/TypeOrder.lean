import GraphQLStatics.Proofs.TypeCompatibility

/-!
# The order of types

Without defaults, a variable may be used where its type *refines* the type that is
wanted: both have the same lists around the same name, and the variable is non-null
at every layer where a value has to be.  Layers can be compared one by one, so that
refinement is a partial order.

A default makes up for `null` as a whole, not for `null` within a list.  So it
relaxes the outermost layer of the type that is wanted, and no other one.

## Main Definitions

* `TypeRef.flag?`: the flag of a layer
* `TypeRef.Refines`: the comparison of types layer by layer

## Main Statements

* `TypeRef.Refines.antisymm`: types that refine each other are the same
* `TypeRef.fits_iff_refines`: the comparison by flags is refinement
* `TypeRef.usageAllowed_eq_relaxed`: what defaults do
* `usageAllowed_partialOrder`: the uses of variables are ordered by refinement
-/

namespace GraphQLStatics

namespace TypeRef

/-! ### Layers -/

/-- The flag of a layer.  The outermost layer has index zero, and the items of a list
are the next one. -/
def flag? : Nat → TypeRef → Option Bool
  | 0, t => some t.nullable
  | i + 1, t => t.item?.bind (flag? i)

/-- The types have the same lists around the same name, and the first is non-null at
every layer where the second is. -/
structure Refines (given wanted : TypeRef) : Prop where
  depth : given.depth = wanted.depth
  name : given.innermostName = wanted.innermostName
  nonNull : ∀ i, flag? i wanted = some false → flag? i given = some false

theorem refines_named_iff {a b : String} {m n : Bool} :
    Refines (.named a m) (.named b n) ↔ a = b ∧ (n = false → m = false) := by
  constructor
  · intro refines
    refine ⟨refines.name, ?_⟩
    rintro rfl
    exact Option.some.inj (refines.nonNull 0 rfl)
  · rintro ⟨rfl, below⟩
    refine ⟨rfl, rfl, ?_⟩
    rintro (_ | i) nonNull
    · exact congrArg some (below (Option.some.inj nonNull))
    · cases nonNull

theorem refines_list_iff {a b : TypeRef} {m n : Bool} :
    Refines (.list a m) (.list b n) ↔ Refines a b ∧ (n = false → m = false) := by
  constructor
  · intro refines
    refine ⟨⟨Nat.succ.inj refines.depth, refines.name, fun i => refines.nonNull (i + 1)⟩, ?_⟩
    rintro rfl
    exact Option.some.inj (refines.nonNull 0 rfl)
  · rintro ⟨items, below⟩
    refine ⟨congrArg Nat.succ items.depth, items.name, ?_⟩
    rintro (_ | i) nonNull
    · exact congrArg some (below (Option.some.inj nonNull))
    · exact items.nonNull i nonNull

theorem not_refines_named_list {a : String} {b : TypeRef} {m n : Bool} :
    ¬ Refines (.named a m) (.list b n) :=
  fun refines => Nat.noConfusion refines.depth

theorem not_refines_list_named {a : TypeRef} {b : String} {m n : Bool} :
    ¬ Refines (.list a m) (.named b n) :=
  fun refines => Nat.noConfusion refines.depth

theorem eq_of_nonNull_iff {m n : Bool} (left : m = false → n = false)
    (right : n = false → m = false) : m = n := by
  cases m with
  | false => exact (left rfl).symm
  | true =>
      cases n with
      | true => rfl
      | false => exact right rfl

namespace Refines

variable {a b c : TypeRef}

theorem refl (t : TypeRef) : Refines t t :=
  ⟨rfl, rfl, fun _ => id⟩

theorem trans (first : Refines a b) (second : Refines b c) : Refines a c where
  depth := first.depth.trans second.depth
  name := first.name.trans second.name
  nonNull i := first.nonNull i ∘ second.nonNull i

/-- Types that refine each other have the same flags. -/
theorem antisymm (first : Refines a b) (second : Refines b a) : a = b := by
  induction a generalizing b with
  | named name m =>
      cases b with
      | list item n => exact (not_refines_named_list first).elim
      | named name' n =>
          obtain ⟨rfl, below⟩ := refines_named_iff.mp first
          obtain ⟨-, above⟩ := refines_named_iff.mp second
          rw [eq_of_nonNull_iff above below]
  | list item m ih =>
      cases b with
      | named name n => exact (not_refines_list_named first).elim
      | list item' n =>
          obtain ⟨items, below⟩ := refines_list_iff.mp first
          obtain ⟨items', above⟩ := refines_list_iff.mp second
          rw [ih items items', eq_of_nonNull_iff above below]

end Refines

/-! ### Comparison of types -/

theorem refused_eq_false_iff {m n : Bool} : (m && !n) = false ↔ (n = false → m = false) := by
  cases m <;> cases n <;> decide

/-- **The comparison by flags is refinement.** -/
theorem fits_iff_refines (given wanted : TypeRef) :
    fits given given.nullable wanted wanted.nullable = true ↔ Refines given wanted := by
  induction given generalizing wanted with
  | named name m =>
      cases wanted with
      | list item n => simp [fits, not_refines_named_list]
      | named name' n =>
          rw [refines_named_iff, ← refused_eq_false_iff]
          cases m <;> cases n <;> simp [fits, nullable]
  | list item m ih =>
      cases wanted with
      | named name n => simp [fits, not_refines_list_named]
      | list item' n =>
          rw [refines_list_iff, ← refused_eq_false_iff, ← ih item']
          cases m <;> cases n <;> simp [fits, nullable]

theorem usageAllowed_without_defaults (given wanted : TypeRef) :
    given.usageAllowed false wanted false = true ↔ Refines given wanted := by
  rw [← fits_iff_refines, usageAllowed]
  split
  · next refused =>
      rw [Bool.and_eq_true, Bool.not_eq_true'] at refused
      rw [refused.1, refused.2, fits_refused]
      rfl
  · rfl

/-- A default relaxes the outermost layer of the type that is wanted. -/
theorem usageAllowed_eq_relaxed (given wanted : TypeRef) {givenDefault wantedDefault : Bool}
    (hasDefault : (givenDefault || wantedDefault) = true) :
    given.usageAllowed givenDefault wanted wantedDefault =
      given.usageAllowed false (wanted.withNullable true) false := by
  have relaxed : given.usageAllowed false (wanted.withNullable true) false =
      fits given true wanted true := by
    rw [usageAllowed, nullable_withNullable, Bool.not_true, Bool.and_false,
      if_neg Bool.false_ne_true, fits_withNullable_right]
    exact fits_eq_fits_nullable given wanted (Bool.and_false _)
  rw [relaxed, usageAllowed, hasDefault, Bool.true_and]
  split
  · rfl
  · next allowed => exact fits_eq_fits_nullable given wanted (Bool.not_eq_true _ ▸ allowed)

end TypeRef

/-- **The uses of variables are ordered by refinement.**  Without defaults, "may be used
for" is a partial order on types.  It holds between types with the same lists around the
same name, of which the first is non-null at every layer where the second is.  With a
default on either side it is asked whether the variable may be used without defaults for
the type whose outermost layer is made nullable. -/
theorem usageAllowed_partialOrder :
    let allowed (given wanted : TypeRef) : Prop := given.usageAllowed false wanted false = true
    (∀ t, allowed t t) ∧
      (∀ a b c, allowed a b → allowed b c → allowed a c) ∧
      (∀ a b, allowed a b → allowed b a → a = b) ∧
      (∀ given wanted, allowed given wanted ↔
        given.depth = wanted.depth ∧ given.innermostName = wanted.innermostName ∧
          ∀ i, TypeRef.flag? i wanted = some false → TypeRef.flag? i given = some false) ∧
      ∀ given wanted givenDefault wantedDefault, (givenDefault || wantedDefault) = true →
        (given.usageAllowed givenDefault wanted wantedDefault = true ↔
          allowed given (wanted.withNullable true)) := by
  simp only [TypeRef.usageAllowed_without_defaults]
  refine ⟨.refl, fun _ _ _ => .trans, fun _ _ => TypeRef.Refines.antisymm, ?_, ?_⟩
  · intro given wanted
    exact ⟨fun refines => ⟨refines.depth, refines.name, refines.nonNull⟩,
      fun ⟨depth, name, nonNull⟩ => ⟨depth, name, nonNull⟩⟩
  · intro given wanted givenDefault wantedDefault hasDefault
    rw [TypeRef.usageAllowed_eq_relaxed given wanted hasDefault,
      TypeRef.usageAllowed_without_defaults]

/-- From `[Int!]!` over `[Int!]` to `[Int]`, and not back.  With a default, `[Int]` may be
used for `[Int]!`, and still not for `[Int!]`. -/
theorem usageAllowed_partialOrder_lists :
    let ints (list item : Bool) : TypeRef := .list (.named "Int" item) list
    (ints false false).usageAllowed false (ints true true) false = true ∧
      (ints true true).usageAllowed false (ints true false) false = false ∧
      (ints true true).usageAllowed true (ints false true) false = true ∧
      (ints true true).usageAllowed true (ints true false) true = false := by
  intro ints
  obtain ⟨refl, trans, antisymm, -, withDefault⟩ := usageAllowed_partialOrder
  have down : (ints false false).usageAllowed false (ints true true) false = true :=
    trans _ (ints true false) _ (by decide) (by decide)
  have notBack : (ints true true).usageAllowed false (ints true false) false = false := by
    by_contra back
    rw [Bool.not_eq_false] at back
    have same := antisymm _ _ back (by decide)
    exact absurd same (by decide)
  refine ⟨down, notBack, ?_, ?_⟩
  · exact (withDefault _ _ true false rfl).mpr (refl (ints true true))
  · exact Bool.eq_false_iff.mpr ((withDefault _ _ true true rfl).not.mpr
      (Bool.eq_false_iff.mp notBack))

end GraphQLStatics
