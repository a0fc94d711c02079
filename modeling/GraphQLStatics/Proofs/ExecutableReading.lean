import GraphQLStatics.Grammar.Executable
import GraphQLStatics.Proofs.ValueReading

/-!
# Reading operations and fragments again

An operation or a fragment ends with the brace that closes its selections, so it
is read alike whatever follows it.

## Main Definitions

* `SelectionSet.unplaced`, `Operation.unplaced`, `Fragment.unplaced`

## Main Statements

* `Grammar.ReadsOn.selectionSet`
* `Grammar.ReadsOn.operation`, `Grammar.ReadsOn.fragment`
-/

namespace GraphQLStatics

/-! ### Definitions without positions -/

/-- The selections without positions. -/
def SelectionSet.unplaced : SelectionSet → SelectionSet
  | .nil => .nil
  | .field use sub rest => .field use.unplaced sub.unplaced rest.unplaced
  | .spread use rest => .spread use.unplaced rest.unplaced
  | .inline use sub rest => .inline use.unplaced sub.unplaced rest.unplaced

/-- The selection without positions. -/
def Selection.unplaced : Selection → Selection
  | .field use sub => .field use.unplaced sub.unplaced
  | .spread use => .spread use.unplaced
  | .inline use sub => .inline use.unplaced sub.unplaced

theorem SelectionSet.unplaced_ofList (selections : List Selection) :
    (ofList selections).unplaced = ofList (selections.map Selection.unplaced) := by
  induction selections with
  | nil => rfl
  | cons head rest ih =>
      have step : (cons head (ofList rest)).unplaced =
          cons head.unplaced (ofList rest).unplaced := by
        cases head <;> rfl
      rw [ih] at step
      exact step

/-- The operation without positions. -/
def Operation.unplaced (op : Operation) : Operation :=
  { op with
    position := .first
    declared := op.declared.map VariableDefinition.unplaced
    directives := op.directives.map DirectiveUse.unplaced
    selections := op.selections.unplaced }

/-- The fragment without positions. -/
def Fragment.unplaced (frag : Fragment) : Fragment :=
  { frag with
    position := .first
    directives := frag.directives.map DirectiveUse.unplaced
    selections := frag.selections.unplaced }

namespace Grammar.ReadsOn

/-! ### Selections -/

section Selections

variable {p q : Parse SelectionSet}

theorem field (sub : ReadsOn (fun _ _ => False) Filled (InvImage Eq SelectionSet.unplaced) p q) :
    ReadsOn (fun _ _ => False) Filled (InvImage Eq Selection.unplaced) (Grammar.field p)
      (Grammar.field q) := by
  refine fromHere fun position position' => filledName.filledThen ?_
  rintro first _ rfl
  have aliased : ReadsOn (fun _ _ => False) Filled Eq
      (do Grammar.punct .colon; Grammar.name) (do Grammar.punct .colon; Grammar.name) :=
    (filledPunct rfl rfl).filledThen fun _ _ _ => filledName.balanced
  refine (optionalWithin aliased).thenBalanced fun second second' secondEq => ?_
  cases eq_of_rel_eq secondEq
  refine (arguments.mono (fun _ _ => False.elim) (fun _ passes => passes.balanced)
    fun _ _ => id).thenBalanced ?_
  rintro given _ rfl
  refine directivesWithin.thenBalanced fun applied applied' appliedEq => ?_
  refine (optionalWithin sub).returns (fun below below' belowEq => ?_) fun _ _ => id
  have appliedEq := map_eq_of_forall₂ appliedEq
  have belowEq : (below.getD .nil).unplaced = (below'.getD .nil).unplaced := by
    cases belowEq with
    | none => rfl
    | some eq => exact eq
  cases second with
  | none => simp [InvImage, Selection.unplaced, FieldUse.unplaced, appliedEq, belowEq]
  | some name => simp [InvImage, Selection.unplaced, FieldUse.unplaced, appliedEq, belowEq]

theorem spreadOrInline
    (sub : ReadsOn (fun _ _ => False) Filled (InvImage Eq SelectionSet.unplaced) p q) :
    ReadsOn (fun _ _ => False) Filled (InvImage Eq Selection.unplaced) (Grammar.spreadOrInline p)
      (Grammar.spreadOrInline q) := by
  refine (filledPunct rfl rfl).filledThen fun _ _ _ => balanced ?_
  refine fromHere fun position position' => next (fun b => ?_) Filled.firm
  cases b with
  | true =>
      refine filledName.filledThen ?_
      rintro name _ rfl
      refine directivesWithin.returns (fun applied applied' appliedEq => ?_) fun _ _ => id
      simp [InvImage, Selection.unplaced, SpreadUse.unplaced, map_eq_of_forall₂ appliedEq]
  | false =>
      have conditioned : ReadsOn (fun _ _ => False) Filled Eq
          (do Grammar.keyword "on"; Grammar.name) (do Grammar.keyword "on"; Grammar.name) := by
        refine ((keyword "on").mono (S := Filled) (fun _ _ => id) ?_ fun _ _ => id).filledThen
          fun _ _ _ => filledName.balanced
        rintro _ rfl
        exact .single rfl rfl
      refine (optionalWithin conditioned).thenFilled fun condition condition' conditionEq => ?_
      cases eq_of_rel_eq conditionEq
      refine directivesWithin.thenFilled fun applied applied' appliedEq => ?_
      refine sub.returns (fun below below' belowEq => ?_) fun _ _ => id
      have belowEq : below.unplaced = below'.unplaced := belowEq
      simp [InvImage, Selection.unplaced, InlineUse.unplaced, map_eq_of_forall₂ appliedEq, belowEq]

theorem selection
    (sub : ReadsOn (fun _ _ => False) Filled (InvImage Eq SelectionSet.unplaced) p q) :
    ReadsOn (fun _ _ => False) Filled (InvImage Eq Selection.unplaced) (Grammar.selection p)
      (Grammar.selection q) := by
  refine next (fun b => ?_) Filled.firm
  cases b with
  | false => exact field sub
  | true => exact spreadOrInline sub

theorem selectionSetWithin {H : SelectionSet → Token → Prop} {n m : Nat} (fuel : n ≤ m) :
    ReadsOn H (Enclosed .openBrace .closeBrace) (InvImage Eq SelectionSet.unplaced)
      (Grammar.selectionSetWithin n) (Grammar.selectionSetWithin m) := by
  induction n generalizing m H with
  | zero => exact fail
  | succ n ih =>
      obtain ⟨m, rfl⟩ := Nat.exists_eq_add_of_le' (Nat.le_trans (Nat.le_add_left 1 n) fuel)
      -- selections within others end with a brace, so that nothing need follow them
      have below := (ih (H := fun _ _ => False) (Nat.le_of_succ_le_succ fuel)).mono
        (fun _ _ => id) (Enclosed.filled rfl rfl) fun _ _ => id
      refine (bracketed (H := fun _ _ => True) _ _ _ (selection below)).returns ?_
        fun _ _ _ => trivial
      intro items others related
      simp only [InvImage, SelectionSet.unplaced_ofList, map_eq_of_forall₂ related]

/-- Selections are read alike whatever follows them. -/
theorem selectionSet {H : SelectionSet → Token → Prop} :
    ReadsOn H (Enclosed .openBrace .closeBrace) (InvImage Eq SelectionSet.unplaced)
      Grammar.selectionSet Grammar.selectionSet :=
  fuelled selectionSetWithin

end Selections

/-! ### Definitions -/

theorem variableDefinition :
    ReadsOn (fun _ _ => False) Filled (InvImage Eq VariableDefinition.unplaced)
      Grammar.variableDefinition Grammar.variableDefinition := by
  refine fromHere fun position position' => (filledPunct rfl rfl).filledThen fun _ _ _ => ?_
  refine filledName.balanced.thenBalanced ?_
  rintro name _ rfl
  refine (filledPunct rfl rfl).balanced.thenBalanced fun _ _ _ => ?_
  refine typeExpr.balanced.thenBalanced ?_
  rintro type _ rfl
  refine defaultValue.returns ?_ fun _ _ => id
  rintro default _ rfl
  rfl

theorem endingSelections {H : SelectionSet → Token → Prop} :
    ReadsOn H (Ends Outlook.Engaged (· = .top)) (InvImage Eq SelectionSet.unplaced)
      Grammar.selectionSet Grammar.selectionSet := by
  refine selectionSet.mono (fun _ _ => id) ?_ fun _ _ => id
  intro ts enclosed
  exact ⟨enclosed.passes rfl rfl, enclosed.firm⟩

/-- An operation is read alike whatever follows it. -/
theorem operation (kind : OperationKind) :
    ReadsOn (fun _ _ => True) (Shape .executable) (InvImage Eq Operation.unplaced)
      (Grammar.operation kind) (Grammar.operation kind) := by
  have named : ReadsOn (orMissing isName fun _ _ => True) (Passes (· = .bound) Outlook.Engaged) Eq
      (Grammar.optional isName Grammar.name) (Grammar.optional isName Grammar.name) := by
    refine (passName.passes.optionalPasses _ ?_).mono (fun _ _ => id) (fun _ => id)
      fun _ _ => eq_of_rel_eq
    rintro o rfl
    exact Outlook.noConfusion
  refine fromHere fun position position' => ?_
  refine (keyword (H := fun _ _ => True) kind.keyword).bind (Q := Ends (· = .bound) (· = .top))
    (fun _ _ _ => ?_) (fun _ _ _ _ => trivial) ?_
  · refine named.thenEnds ?_
    rintro name _ rfl
    refine (parenthesized variableDefinition).thenEnds fun declared declared' declaredEq => ?_
    refine directives.thenEnds fun applied applied' appliedEq => ?_
    refine endingSelections.returns (fun below below' belowEq => ?_) fun _ _ => id
    have belowEq : below.unplaced = below'.unplaced := belowEq
    simp [InvImage, Operation.unplaced, map_eq_of_forall₂ appliedEq,
      map_eq_of_forall₂ (forall₂_getD declaredEq), belowEq]
  · rintro _ y rfl ends
    refine .ofKeyword ?_ ends.1 fun _ _ => id
    cases kind <;> rfl

/-- A bare selection set is read alike whatever follows it. -/
theorem shorthand :
    ReadsOn (fun _ _ => True) (Shape .executable) (InvImage Eq Operation.unplaced)
      Grammar.shorthand Grammar.shorthand := by
  refine fromHere fun position position' => ?_
  refine (selectionSet.returns (fun below below' belowEq => ?_) fun _ _ => id).mono
    (fun _ _ => id) ?_ fun _ _ => id
  · have belowEq : below.unplaced = below'.unplaced := belowEq
    simp [InvImage, Operation.unplaced, belowEq]
  · rintro ts ⟨inner, balanced, rfl⟩
    exact .ofBraces balanced

/-- A fragment is read alike whatever follows it. -/
theorem fragment :
    ReadsOn (fun _ _ => True) (Shape .executable) (InvImage Eq Fragment.unplaced)
      Grammar.fragment Grammar.fragment := by
  refine fromHere fun position position' => ?_
  refine (keyword (H := fun _ _ => True) "fragment").bind (Q := Ends (· = .bound) (· = .top))
    (fun _ _ _ => ?_) (fun _ _ _ _ => trivial) ?_
  · refine passName.passes.thenEnds (H := fun _ _ => True) ?_
    rintro name _ rfl
    refine (passWord "on" rfl).passes.thenEnds (H := fun _ _ => True) fun _ _ _ =>
      passName.passes.thenEnds (H := fun _ _ => True) ?_
    rintro condition _ rfl
    refine directives.thenEnds fun applied applied' appliedEq => ?_
    refine endingSelections.returns (fun below below' belowEq => ?_) fun _ _ => id
    have belowEq : below.unplaced = below'.unplaced := belowEq
    simp [InvImage, Fragment.unplaced, map_eq_of_forall₂ appliedEq, belowEq]
  · rintro _ y rfl ends
    exact .ofKeyword rfl ends.1 fun _ _ => id

end Grammar.ReadsOn

end GraphQLStatics
