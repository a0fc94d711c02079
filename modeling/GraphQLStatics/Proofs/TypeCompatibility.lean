import GraphQLStatics.Grammar.Value
import GraphQLStatics.Schema.TypeRef
import GraphQLStatics.Proofs.ReadingOn

/-!
# Compatibility of types

The GraphQL specification (October 2021, *All Variable Usages Are Allowed*)
compares types as they are written: a non-null type is a layer of its own, and
the two algorithms `AreTypesCompatible` and `IsVariableUsageAllowed` take such
layers off.  A type reference has no such layers.  Each name and each list
carries a flag, and a comparison passes the flags of the outermost layers beside
the references, so that a layer is taken off by a change of the flag alone.

Both ways of comparing agree wherever no non-null type stands directly inside
another.  The grammar reads no other types.

## Main Definitions

* `TypeExpr.compatible`, `TypeExpr.usageAllowed`: the algorithms of the
  specification
* `TypeRef.Compares`: a comparison by flags that comes to its end

## Main Statements

* `Grammar.plain_of_typeExpr`: what the grammar reads
* `TypeRef.fits_ofExpr`: both ways of comparing agree
* `usageAllowed_ofExpr`: variables may be used where the specification says so
-/

namespace GraphQLStatics

/-! ### The algorithms of the specification -/

namespace TypeExpr

/-- The nullable type of a type: a non-null layer is taken off. -/
def unwrapped : TypeExpr → TypeExpr
  | .nonNull inner => inner
  | expr => expr

/-- `AreTypesCompatible`: whether a value of the first type can be used where one
of the second is expected. -/
def compatible : TypeExpr → TypeExpr → Bool
  | .nonNull given, .nonNull wanted => compatible given wanted
  | _, .nonNull _ => false
  | .nonNull given, wanted => compatible given wanted
  | .list given, .list wanted => compatible given wanted
  | _, .list _ => false
  | .list _, _ => false
  | .named given, .named wanted => given == wanted

/-- `IsVariableUsageAllowed`: whether a variable of the first type can be used
where a value of the second is expected, given whether the variable has a default
other than `null` and whether the location has a default. -/
def usageAllowed (given : TypeExpr) (givenDefault : Bool) (wanted : TypeExpr)
    (wantedDefault : Bool) : Bool :=
  if wanted.isNonNull && !given.isNonNull then
    if !givenDefault && !wantedDefault then false
    else given.compatible wanted.unwrapped
  else given.compatible wanted

theorem isNonNull_eq_false {expr : TypeExpr} (notNonNull : ∀ inner, expr = .nonNull inner → False) :
    expr.isNonNull = false := by
  cases expr with
  | named name => rfl
  | list item => rfl
  | nonNull inner => exact (notNonNull inner rfl).elim

theorem isNonNull_unwrapped {expr : TypeExpr} (plain : expr.Plain) :
    expr.unwrapped.isNonNull = false := by
  cases expr with
  | named name => rfl
  | list item => rfl
  | nonNull inner => exact plain.1

theorem Plain.unwrapped {expr : TypeExpr} (plain : expr.Plain) : expr.unwrapped.Plain := by
  cases expr with
  | named name => exact plain
  | list item => exact plain
  | nonNull inner => exact plain.2

end TypeExpr

/-- After a type there is at most one exclamation mark. -/
theorem Grammar.plain_of_typeWithin {n : Nat} {lexemes rest : List Lexeme} {expr : TypeExpr}
    (ok : typeWithin n lexemes = .ok (expr, rest)) : expr.Plain := by
  induction n generalizing lexemes rest expr with
  | zero => cases lexemes <;> cases ok
  | succ n ih =>
      have marked : ∀ {inner : TypeExpr} {middle : List Lexeme},
          inner.isNonNull = false → inner.Plain →
          (do if ← skipIf (isPunct .bang) then return .nonNull inner else return inner :
            Parse TypeExpr) middle = .ok (expr, rest) → expr.Plain := by
        intro inner middle notMarked plain okMark
        obtain ⟨isMarked, _, -, okEnd⟩ := bind_eq_ok.mp okMark
        cases isMarked with
        | false => cases okEnd; exact plain
        | true => cases okEnd; exact ⟨notMarked, plain⟩
      rw [typeWithin] at ok
      obtain ⟨isList, _, -, okInner⟩ := bind_eq_ok.mp ok
      cases isList with
      | false =>
          obtain ⟨name, _, -, okMark⟩ := bind_eq_ok.mp okInner
          exact @marked (.named name) _ rfl trivial okMark
      | true =>
          obtain ⟨_, _, -, okItem⟩ := bind_eq_ok.mp okInner
          obtain ⟨item, _, okItem, okClose⟩ := bind_eq_ok.mp okItem
          obtain ⟨_, _, -, okMark⟩ := bind_eq_ok.mp okClose
          exact @marked (.list item) _ rfl (show item.Plain from ih okItem) okMark

/-- **The grammar reads plain types only.** -/
theorem Grammar.plain_of_typeExpr {lexemes rest : List Lexeme} {expr : TypeExpr}
    (ok : typeExpr lexemes = .ok (expr, rest)) : expr.Plain :=
  plain_of_typeWithin (n := lexemes.length + 1) ok

/-! ### Comparing by flags -/

namespace TypeRef

/-- A comparison by flags comes to an answer.  Where a flag says non-null, the
same references are compared again with both flags taken off, and lists are
compared by their items, with the flags of these. -/
inductive Compares : TypeRef → Bool → TypeRef → Bool → Bool → Prop
  | refused (given wanted : TypeRef) : Compares given true wanted false false
  | bothNonNull {given wanted : TypeRef} {answer : Bool}
      (again : Compares given true wanted true answer) :
      Compares given false wanted false answer
  | givenNonNull {given wanted : TypeRef} {answer : Bool}
      (again : Compares given true wanted true answer) :
      Compares given false wanted true answer
  | items {given wanted : TypeRef} {m n answer : Bool}
      (below : Compares given given.nullable wanted wanted.nullable answer) :
      Compares (.list given m) true (.list wanted n) true answer
  | names (given wanted : String) (m n : Bool) :
      Compares (.named given m) true (.named wanted n) true (given == wanted)
  | listForName (given : TypeRef) (wanted : String) (m n : Bool) :
      Compares (.list given m) true (.named wanted n) true false
  | nameForList (given : String) (wanted : TypeRef) (m n : Bool) :
      Compares (.named given m) true (.list wanted n) true false

/-- Flags that allow the comparison can be taken off. -/
theorem fits_eq_fits_nullable (given wanted : TypeRef) {m n : Bool}
    (allowed : (m && !n) = false) : fits given m wanted n = fits given true wanted true := by
  cases given <;> cases wanted <;> simp [fits, allowed]

theorem fits_refused (given wanted : TypeRef) : fits given true wanted false = false := by
  cases given <;> cases wanted <;> rfl

/-- From any flags the comparison is refused or goes on with both taken off. -/
theorem compares_of_nullable {given wanted : TypeRef}
    (compares : Compares given true wanted true (fits given true wanted true)) (m n : Bool) :
    Compares given m wanted n (fits given m wanted n) := by
  cases m with
  | true =>
      cases n with
      | true => exact compares
      | false =>
          rw [fits_refused]
          exact .refused given wanted
  | false =>
      rw [fits_eq_fits_nullable given wanted rfl]
      cases n with
      | true => exact .givenNonNull compares
      | false => exact .bothNonNull compares

theorem compares_fits (given wanted : TypeRef) (m n : Bool) :
    Compares given m wanted n (fits given m wanted n) := by
  induction given generalizing wanted m n with
  | named name _ =>
      refine compares_of_nullable ?_ m n
      cases wanted with
      | named wanted _ => exact .names name wanted _ _
      | list wanted _ => exact .nameForList name wanted _ _
  | list item _ ih =>
      refine compares_of_nullable ?_ m n
      cases wanted with
      | named wanted _ => exact .listForName item wanted _ _
      | list wanted _ => exact .items (ih wanted _ _)

/-- **The comparison comes to its end**, with one answer. -/
theorem compares_iff {given wanted : TypeRef} {m n answer : Bool} :
    Compares given m wanted n answer ↔ fits given m wanted n = answer := by
  constructor
  · intro compares
    induction compares with
    | refused given wanted => exact fits_refused given wanted
    | bothNonNull _ ih => rwa [fits_eq_fits_nullable _ _ rfl]
    | givenNonNull _ ih => rwa [fits_eq_fits_nullable _ _ rfl]
    | items _ ih => exact ih
    | names | listForName | nameForList => rfl
  · rintro rfl
    exact compares_fits given wanted m n

/-! ### Both ways of comparing -/

@[simp] theorem nullable_withNullable (flag : Bool) (t : TypeRef) :
    (t.withNullable flag).nullable = flag := by
  cases t <;> rfl

/-- The flags of the outermost layers are those that are passed. -/
@[simp] theorem fits_withNullable_left (given wanted : TypeRef) (flag m n : Bool) :
    fits (given.withNullable flag) m wanted n = fits given m wanted n := by
  cases given <;> cases wanted <;> rfl

@[simp] theorem fits_withNullable_right (given wanted : TypeRef) (flag m n : Bool) :
    fits given m (wanted.withNullable flag) n = fits given m wanted n := by
  cases given <;> cases wanted <;> rfl

theorem ofExprWith_false (expr : TypeExpr) :
    ofExprWith false expr = (ofExpr expr).withNullable false := by
  induction expr with
  | named name => rfl
  | list item => rfl
  | nonNull inner ih =>
    show ofExprWith false inner = (ofExprWith false inner).withNullable false
    rw [ih]
    cases ofExpr inner <;> rfl

/-- A non-null layer is a flag. -/
theorem ofExpr_nonNull (inner : TypeExpr) :
    ofExpr (.nonNull inner) = (ofExpr inner).withNullable false :=
  ofExprWith_false inner

theorem nullable_ofExpr (expr : TypeExpr) : (ofExpr expr).nullable = !expr.isNonNull := by
  cases expr with
  | named name => rfl
  | list item => rfl
  | nonNull inner => rw [ofExpr_nonNull, nullable_withNullable]; rfl

/-- **Both ways of comparing agree.**  A layer that the specification takes off
is a flag, and below it there is no other one. -/
theorem fits_ofExpr {given wanted : TypeExpr} (plain : given.Plain) (plain' : wanted.Plain) :
    fits (ofExpr given) (ofExpr given).nullable (ofExpr wanted) (ofExpr wanted).nullable =
      given.compatible wanted := by
  fun_induction TypeExpr.compatible given wanted with
  | case1 given wanted ih =>
      have below := ih plain.2 plain'.2
      rw [nullable_ofExpr, nullable_ofExpr, plain.1, plain'.1] at below
      rw [ofExpr_nonNull, ofExpr_nonNull, fits_withNullable_left, fits_withNullable_right,
        nullable_withNullable, nullable_withNullable, fits_eq_fits_nullable _ _ rfl]
      exact below
  | case2 given wanted givenNullable =>
      rw [nullable_ofExpr, nullable_ofExpr, TypeExpr.isNonNull_eq_false givenNullable]
      exact fits_refused _ _
  | case3 given wanted wantedNullable ih =>
      have below := ih plain.2 plain'
      rw [nullable_ofExpr given, plain.1] at below
      rw [← below, nullable_ofExpr, nullable_ofExpr, TypeExpr.isNonNull_eq_false wantedNullable,
        ofExpr_nonNull, fits_withNullable_left]
      exact fits_eq_fits_nullable _ _ rfl
  | case4 given wanted ih => exact ih plain plain'
  | case5 given wanted givenNullable notList =>
      cases given with
      | named name => rfl
      | list item => exact (notList item rfl).elim
      | nonNull inner => exact (givenNullable inner rfl).elim
  | case6 given wanted wantedNullable notList =>
      cases wanted with
      | named name => rfl
      | list item => exact (notList item rfl).elim
      | nonNull inner => exact (wantedNullable inner rfl).elim
  | case7 given wanted => rfl

/-- Where a default makes up for `null`, the wanted type is compared without its
non-null layer. -/
theorem fits_ofExpr_unwrapped {given wanted : TypeExpr} (plain : given.Plain)
    (plain' : wanted.Plain) (givenNullable : given.isNonNull = false) :
    fits (ofExpr given) true (ofExpr wanted) true = given.compatible wanted.unwrapped := by
  have agree := fits_ofExpr plain plain'.unwrapped
  rw [nullable_ofExpr, nullable_ofExpr, givenNullable, wanted.isNonNull_unwrapped plain'] at agree
  rw [← agree]
  cases wanted with
  | named name => rfl
  | list item => rfl
  | nonNull inner =>
      rw [ofExpr_nonNull, fits_withNullable_right]
      rfl

theorem usageAllowed_eq {given wanted : TypeExpr} (plain : given.Plain) (plain' : wanted.Plain)
    (givenDefault wantedDefault : Bool) :
    (ofExpr given).usageAllowed givenDefault (ofExpr wanted) wantedDefault =
      given.usageAllowed givenDefault wanted wantedDefault := by
  rw [usageAllowed, TypeExpr.usageAllowed, fits_ofExpr plain plain', nullable_ofExpr,
    nullable_ofExpr, Bool.not_not, Bool.and_comm]
  split
  · next relaxed =>
      rw [Bool.and_eq_true, Bool.not_eq_true'] at relaxed
      rw [fits_ofExpr_unwrapped plain plain' relaxed.2]
      cases givenDefault <;> cases wantedDefault <;> rfl
  · rfl

end TypeRef

/-- **Variables may be used where the specification says so.**  The grammar reads
plain types only.  For plain types, whatever the defaults of the variable and of the
location, type references give the answer of the specification, and the comparison
behind it comes to its end with one answer. -/
theorem usageAllowed_ofExpr :
    (∀ lexemes expr rest, Grammar.typeExpr lexemes = .ok (expr, rest) → expr.Plain) ∧
    ∀ given wanted : TypeExpr, given.Plain → wanted.Plain →
      (∀ m n answer, (TypeRef.ofExpr given).Compares m (.ofExpr wanted) n answer ↔
        (TypeRef.ofExpr given).fits m (.ofExpr wanted) n = answer) ∧
      ∀ givenDefault wantedDefault,
        (TypeRef.ofExpr given).usageAllowed givenDefault (.ofExpr wanted) wantedDefault =
          given.usageAllowed givenDefault wanted wantedDefault := by
  refine ⟨fun _ _ _ => Grammar.plain_of_typeExpr, ?_⟩
  intro given wanted plain plain'
  exact ⟨fun _ _ _ => TypeRef.compares_iff, TypeRef.usageAllowed_eq plain plain'⟩

/-- The lexemes of the type `[Int!]`. -/
def nonNullItems : List Lexeme :=
  [⟨.punct .openBracket, ⟨1, 1⟩, 0, 1⟩, ⟨.name "Int", ⟨1, 2⟩, 1, 4⟩,
   ⟨.punct .bang, ⟨1, 5⟩, 4, 5⟩, ⟨.punct .closeBracket, ⟨1, 6⟩, 5, 6⟩]

/-- A variable of type `[Int!]` may be used for `[Int]!` if one of them has a default.
No default helps with the items of a list. -/
theorem usageAllowed_ofExpr_items :
    let items : TypeExpr := .list (.nonNull (.named "Int"))
    let ints : TypeExpr := .list (.named "Int")
    Grammar.typeExpr nonNullItems = .ok (items, []) ∧ items.Plain ∧ ints.Plain ∧
      (TypeRef.ofExpr items).usageAllowed false (.ofExpr (.nonNull ints)) true = true ∧
      (TypeRef.ofExpr items).usageAllowed false (.ofExpr (.nonNull ints)) false = false ∧
      (TypeRef.ofExpr ints).usageAllowed true (.ofExpr (.nonNull items)) true = false := by
  intro items ints
  obtain ⟨readsPlain, agree⟩ := usageAllowed_ofExpr
  have plain : items.Plain := readsPlain nonNullItems items [] rfl
  have plain' : ints.Plain := trivial
  have itemsForInts := (agree items (.nonNull ints) plain ⟨rfl, plain'⟩).2
  have intsForItems := (agree ints (.nonNull items) plain' ⟨rfl, plain⟩).2
  refine ⟨rfl, plain, plain', ?_, ?_, ?_⟩
  · exact (itemsForInts false true).trans rfl
  · exact (itemsForInts false false).trans rfl
  · exact (intsForItems true true).trans rfl

end GraphQLStatics
