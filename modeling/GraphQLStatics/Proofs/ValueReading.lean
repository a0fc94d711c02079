import GraphQLStatics.Proofs.Positions
import GraphQLStatics.Proofs.ReadingOn

/-!
# Reading types, values and directives again

Types and values stand within brackets only, so that nothing but a bracket
follows them.  Directives also stand outside, where the next definition may
follow.

## Main Definitions

* `Grammar.ReadsOn.Ends`: some tokens outside brackets

## Main Statements

* `Grammar.ReadsOn.typeExpr`, `Grammar.ReadsOn.value`
* `Grammar.ReadsOn.arguments`, `Grammar.ReadsOn.directives`
-/

namespace GraphQLStatics.Grammar

/-! ### Filled parts -/

theorem Filled.append {a b : List Token} (first : Filled a) (second : Balanced b) :
    Filled (a ++ b) :=
  ⟨first.1.append second, fun empty => first.2 (List.append_eq_nil_iff.mp empty).1⟩

theorem Filled.after {a b : List Token} (first : Balanced a) (second : Filled b) :
    Filled (a ++ b) :=
  ⟨first.append second.1, fun empty => second.2 (List.append_eq_nil_iff.mp empty).2⟩

theorem Filled.single {token : Token} (opening : token.isOpening = false)
    (closing : token.isClosing = false) : Filled [token] :=
  ⟨.single opening closing, List.cons_ne_nil _ _⟩

theorem eq_of_rel_eq {α : Type} {a b : Option α} (related : Option.Rel Eq a b) : a = b := by
  cases related with
  | none => rfl
  | some eq => rw [eq]

theorem eq_of_forall₂_eq {α : Type} {a b : List α} (related : List.Forall₂ Eq a b) : a = b := by
  rwa [List.forall₂_eq_eq_eq] at related

/-- Lists that look alike item by item look alike. -/
theorem map_eq_of_forall₂ {α γ : Type} {f : α → γ} {a b : List α}
    (related : List.Forall₂ (InvImage Eq f) a b) : a.map f = b.map f := by
  induction related with
  | nil => rfl
  | cons head _ ih => rw [List.map_cons, List.map_cons, head, ih]

theorem forall₂_getD {α β : Type} {R : α → β → Prop} {a : Option (List α)} {b : Option (List β)}
    (related : Option.Rel (List.Forall₂ R) a b) : List.Forall₂ R (a.getD []) (b.getD []) := by
  cases related with
  | none => exact .nil
  | some all => exact all

namespace ReadsOn

variable {α β γ δ : Type} {R : α → β → Prop} {R' : γ → δ → Prop} {p : Parse α} {q : Parse β}
  {f : α → Parse γ} {g : β → Parse δ}

/-- What is never read is read alike. -/
theorem fail {H : α → Token → Prop} {P : List Token → Prop} : ReadsOn H P R Grammar.fail q where
  spells := fun {lexemes rest a} ok => by cases lexemes <;> cases ok
  again := fun {lexemes rest a} ok => by cases lexemes <;> cases ok

/-- Within brackets, a filled part and what goes on. -/
theorem filledThen (first : ReadsOn (fun _ _ => False) Filled R p q)
    (second : ∀ a b, R a b → ReadsOn (fun _ _ => False) Balanced R' (f a) (g b)) :
    ReadsOn (fun _ _ => False) Filled R' (p >>= f) (q >>= g) :=
  first.bind second (fun _ _ _ => id) fun _ _ x y => x.append y

/-- Within brackets, a part and what goes on. -/
theorem thenBalanced (first : ReadsOn (fun _ _ => False) Balanced R p q)
    (second : ∀ a b, R a b → ReadsOn (fun _ _ => False) Balanced R' (f a) (g b)) :
    ReadsOn (fun _ _ => False) Balanced R' (p >>= f) (q >>= g) :=
  first.bind second (fun _ _ _ => id) fun _ _ x y => x.append y

/-- Within brackets, a part that may be missing and a filled one. -/
theorem thenFilled (first : ReadsOn (fun _ _ => False) Balanced R p q)
    (second : ∀ a b, R a b → ReadsOn (fun _ _ => False) Filled R' (f a) (g b)) :
    ReadsOn (fun _ _ => False) Filled R' (p >>= f) (q >>= g) :=
  first.bind second (fun _ _ _ => id) fun _ _ x y => .after x y

/-- A position read on the way. -/
theorem fromHere {H : γ → Token → Prop} {P : List Token → Prop} {f : Position → Parse γ}
    {g : Position → Parse δ} (rest : ∀ a b, ReadsOn H P R' (f a) (g b)) :
    ReadsOn H P R' (Grammar.here >>= f) (Grammar.here >>= g) := by
  refine (here (H := fun _ _ => True)).bind (fun a b _ => rest a b) (fun _ _ _ _ => trivial) ?_
  rintro _ y rfl language
  exact language

theorem balanced {H : α → Token → Prop} (reads : ReadsOn H Filled R p q) :
    ReadsOn H Balanced R p q :=
  reads.mono (fun _ _ => id) (fun _ filled => filled.1) fun _ _ => id

theorem filledPunct {H : Unit → Token → Prop} {p : Punctuator} (opening : p.isOpening = false)
    (closing : p.isClosing = false) : ReadsOn H Filled Eq (Grammar.punct p) (Grammar.punct p) :=
  (punct p).mono (fun _ _ => id) (by rintro _ rfl; exact .single opening closing) fun _ _ => id

theorem filledName {H : String → Token → Prop} :
    ReadsOn H Filled Eq Grammar.name Grammar.name :=
  name.mono (fun _ _ => id) (by rintro _ ⟨text, rfl⟩; exact .single rfl rfl) fun _ _ => id

/-- Within brackets, a part that may be missing. -/
theorem optionalWithin {starts : Token → Bool} (reads : ReadsOn (fun _ _ => False) Filled R p q) :
    ReadsOn (fun _ _ => False) Balanced (Option.Rel R) (Grammar.optional starts p)
      (Grammar.optional starts q) := by
  refine (reads.optional starts).mono (fun _ _ => False.elim) ?_ fun _ _ => id
  rintro ts (rfl | filled)
  · exact .nil
  · exact filled.1

/-- Within brackets, parts in a row. -/
theorem manyWithinBrackets (starts : Token → Bool)
    (item : ReadsOn (fun _ _ => False) Filled R p q) :
    ReadsOn (fun _ _ => False) Balanced (List.Forall₂ R) (Grammar.many starts p)
      (Grammar.many starts q) :=
  (item.many starts Filled.firm .nil fun _ _ x y => x.1.append y).mono (fun _ _ => False.elim)
    (fun _ => id) fun _ _ => id

/-! ### Types -/

theorem typeWithin {n m : Nat} (fuel : n ≤ m) :
    ReadsOn (fun _ _ => False) Filled Eq (Grammar.typeWithin n) (Grammar.typeWithin m) := by
  induction n generalizing m with
  | zero => exact fail
  | succ n ih =>
      obtain ⟨m, rfl⟩ := Nat.exists_eq_add_of_le' (Nat.le_trans (Nat.le_add_left 1 n) fuel)
      have ending (inner : TypeExpr) : ReadsOn (fun _ _ => False) Balanced Eq
          (do if ← Grammar.skipIf (isPunct .bang) then return .nonNull inner else return inner)
          (do if ← Grammar.skipIf (isPunct .bang) then return .nonNull inner
              else return inner) := by
        refine (skipIf _).bind (Q := (· = [])) ?_ (fun _ _ _ => False.elim) ?_
        · rintro b _ rfl
          cases b with
          | false => exact pure rfl
          | true => exact pure rfl
        · rintro x _ (rfl | ⟨token, rfl, bang⟩) rfl
          · exact .nil
          · rw [isPunct, decide_eq_true_eq] at bang
            rw [bang]
            exact .single rfl rfl
      refine next (fun b => ?_) Filled.firm
      cases b with
      | false =>
          refine filledName.filledThen ?_
          rintro text _ rfl
          exact ending _
      | true =>
          refine enclosedThen (K := fun _ _ => False) .openBracket .closeBracket
            (ih (Nat.le_of_succ_le_succ fuel)).balanced ?_
            fun x y enclosed rest => (enclosed.filled rfl rfl x).append rest
          rintro item _ rfl
          exact ending _

/-- A type is read alike wherever it stands. -/
theorem typeExpr : ReadsOn (fun _ _ => False) Filled Eq Grammar.typeExpr Grammar.typeExpr :=
  fuelled typeWithin

/-! ### Values -/

/-- A key, a colon and what stands for the key. -/
theorem entry {α : Type} {p q : Parse α} (item : ReadsOn (fun _ _ => False) Filled Eq p q) :
    ReadsOn (fun _ _ => False) Filled Eq
      (do let key ← Grammar.name; Grammar.punct .colon; return (key, ← p))
      (do let key ← Grammar.name; Grammar.punct .colon; return (key, ← q)) := by
  refine filledName.filledThen ?_
  rintro key _ rfl
  refine (filledPunct rfl rfl).balanced.thenBalanced fun _ _ _ => ?_
  exact item.balanced.returns (fun _ _ eq => by rw [eq]) fun _ _ => id

theorem literal_inert {token : Token} (found : (literal? token).isSome) :
    token.isOpening = false ∧ token.isClosing = false := by
  cases token with
  | punct p => cases found
  | _ => exact ⟨rfl, rfl⟩

theorem valueWithin (withVars : Bool) {n m : Nat} (fuel : n ≤ m) :
    ReadsOn (fun _ _ => False) Filled Eq (Grammar.valueWithin withVars n)
      (Grammar.valueWithin withVars m) := by
  induction n generalizing m with
  | zero => exact fail
  | succ n ih =>
      obtain ⟨m, rfl⟩ := Nat.exists_eq_add_of_le' (Nat.le_trans (Nat.le_add_left 1 n) fuel)
      replace ih := ih (Nat.le_of_succ_le_succ fuel)
      refine peek (fun token => ?_) Filled.firm
      split
      case h_1 =>
        split
        · refine (filledPunct rfl rfl).filledThen fun _ _ _ => ?_
          exact filledName.balanced.returns (fun _ _ eq => by rw [eq]) fun _ _ => id
        · exact fail
      case h_2 =>
        refine enclosedThen (K := fun _ _ => False) (Q := (· = [])) .openBracket .closeBracket
          (manyWithinBrackets _ ih) ?_ ?_
        · intro items others related
          exact pure (by rw [eq_of_forall₂_eq related])
        · rintro x _ enclosed rfl
          exact (enclosed.filled rfl rfl x).append .nil
      case h_3 =>
        refine enclosedThen (K := fun _ _ => False) (Q := (· = [])) .openBrace .closeBrace
          (manyWithinBrackets _ (entry ih)) ?_ ?_
        · intro fields others related
          exact pure (by rw [eq_of_forall₂_eq related])
        · rintro x _ enclosed rfl
          exact (enclosed.filled rfl rfl x).append .nil
      case h_4 =>
        refine (take _).mono (fun _ _ => id) ?_ fun _ _ => id
        rintro _ ⟨token, rfl, found⟩
        exact .single (literal_inert found).1 (literal_inert found).2

/-- A value is read alike wherever it stands. -/
theorem value (withVars : Bool) :
    ReadsOn (fun _ _ => False) Filled Eq (Grammar.value withVars) (Grammar.value withVars) :=
  fuelled (valueWithin withVars)

theorem defaultValue :
    ReadsOn (fun _ _ => False) Balanced Eq Grammar.defaultValue Grammar.defaultValue := by
  have given : ReadsOn (fun _ _ => False) Filled Eq
      (do Grammar.punct .equals; Grammar.value false)
      (do Grammar.punct .equals; Grammar.value false) :=
    (filledPunct rfl rfl).filledThen fun _ _ _ => (value false).balanced
  exact (optionalWithin given).mono (fun _ _ => id) (fun _ => id) fun _ _ => eq_of_rel_eq

/-! ### Outside brackets -/

/-- Tokens that pass, and some at all. -/
def Ends (A B : Outlook → Prop) (ts : List Token) : Prop :=
  Passes A B ts ∧ ts ≠ []

section Passing

variable {A B C : Outlook → Prop} {H : α → Token → Prop} {H' : γ → Token → Prop}

theorem passes (reads : ReadsOn H (Ends A B) R p q) : ReadsOn H (Passes A B) R p q :=
  reads.mono (fun _ _ => id) (fun _ ends => ends.1) fun _ _ => id

/-- Some passing part before another. -/
theorem endsThen (first : ReadsOn (fun _ _ => True) (Ends A B) R p q)
    (second : ∀ a b, R a b → ReadsOn H' (Passes B C) R' (f a) (g b)) :
    ReadsOn H' (Ends A C) R' (p >>= f) (q >>= g) :=
  first.bind second (fun _ _ _ _ => trivial) fun _ _ x y =>
    ⟨x.1.append y, fun empty => x.2 (List.append_eq_nil_iff.mp empty).1⟩

/-- A passing part before some other. -/
theorem thenEnds (first : ReadsOn H (Passes A B) R p q)
    (second : ∀ a b, R a b → ReadsOn H' (Ends B C) R' (f a) (g b)) :
    ReadsOn H' (Ends A C) R' (p >>= f) (q >>= g) :=
  first.bindFirm second (fun _ ends => ends.2) fun _ _ x y =>
    ⟨x.append y.1, fun empty => y.2 (List.append_eq_nil_iff.mp empty).2⟩

/-- A passing part that may be missing. -/
theorem optionalPasses (starts : Token → Bool) (reads : ReadsOn H (Passes A B) R p q)
    (missing : ∀ o, A o → B o) :
    ReadsOn (orMissing starts H) (Passes A B) (Option.Rel R) (Grammar.optional starts p)
      (Grammar.optional starts q) := by
  refine (reads.optional starts).mono (fun _ _ => id) ?_ fun _ _ => id
  rintro ts (rfl | passes)
  · exact .nil missing
  · exact passes

end Passing

/-- A name after a token that ties it. -/
theorem passName {H : String → Token → Prop} :
    ReadsOn H (Ends (· = .bound) Outlook.Engaged) Eq Grammar.name Grammar.name := by
  refine name.mono (fun _ _ => id) ?_ fun _ _ => id
  rintro _ ⟨text, rfl⟩
  exact ⟨.name text, List.cons_ne_nil _ _⟩

theorem passPunct {H : Unit → Token → Prop} {A : Outlook → Prop} (p : Punctuator)
    (opening : p.isOpening = false) (closing : p.isClosing = false) :
    ReadsOn H (Ends A (· = .after (.punct p))) Eq (Grammar.punct p) (Grammar.punct p) := by
  refine (punct p).mono (fun _ _ => id) ?_ fun _ _ => id
  rintro _ rfl
  exact ⟨(Passes.punct opening closing).mono (fun _ _ => trivial) fun _ => id,
    List.cons_ne_nil _ _⟩

/-- A word that is no keyword of a definition. -/
theorem passWord {H : Unit → Token → Prop} {A : Outlook → Prop} (word : String)
    (other : RunKind.ofKeyword? word = none) :
    ReadsOn H (Ends A (· = .after (.name word))) Eq (Grammar.keyword word)
      (Grammar.keyword word) := by
  refine (keyword word).mono (fun _ _ => id) ?_ fun _ _ => id
  rintro _ rfl
  exact ⟨(Passes.word word other).mono (fun _ _ => trivial) fun _ => id, List.cons_ne_nil _ _⟩

/-! ### Directives -/

/-- Items within parentheses, all of which may be missing. -/
theorem parenthesized {starts : Token → Bool} (item : ReadsOn (fun _ _ => False) Filled R p q) :
    ReadsOn (fun _ t => isPunct .openParen t = false) (Passes Outlook.Engaged Outlook.Engaged)
      (Option.Rel (List.Forall₂ R))
      (Grammar.optional (isPunct .openParen) (Grammar.bracketed .openParen .closeParen starts p))
      (Grammar.optional (isPunct .openParen)
        (Grammar.bracketed .openParen .closeParen starts q)) := by
  have engaged (o : Outlook) (after : o = .after (.punct .closeParen)) : o.Engaged := by
    rw [after]
    exact Outlook.noConfusion
  have given : ReadsOn (fun _ _ => True) (Passes Outlook.Engaged Outlook.Engaged)
      (List.Forall₂ R) (Grammar.bracketed .openParen .closeParen starts p)
      (Grammar.bracketed .openParen .closeParen starts q) :=
    (bracketed _ _ _ item).mono (fun _ _ => id)
      (fun _ enclosed => (enclosed.passes rfl rfl).mono (fun _ => id) engaged) fun _ _ => id
  refine (given.optionalPasses _ fun _ => id).mono ?_ (fun _ => id) fun _ _ => id
  intro found t other
  cases found with
  | none => exact other
  | some items => trivial

/-- Arguments are read alike before anything but a parenthesis. -/
theorem arguments :
    ReadsOn (fun _ t => isPunct .openParen t = false) (Passes Outlook.Engaged Outlook.Engaged) Eq
      Grammar.arguments Grammar.arguments :=
  (parenthesized (entry (value true))).returns
    (fun _ _ related => eq_of_forall₂_eq (forall₂_getD related)) fun _ _ => id

/-- A directive without its position is read alike before anything but a
parenthesis. -/
theorem directive :
    ReadsOn (fun _ t => isPunct .openParen t = false) (Ends Outlook.Engaged Outlook.Engaged)
      (InvImage Eq DirectiveUse.unplaced) Grammar.directive Grammar.directive := by
  refine fromHere fun position position' => ?_
  refine (passPunct .atSign rfl rfl).endsThen fun _ _ _ => (passName.endsThen ?_).passes
  rintro name _ rfl
  refine arguments.returns ?_ fun _ _ => id
  rintro given _ rfl
  rfl

/-- Directives without their positions are read alike before anything but a
parenthesis or another directive. -/
theorem directives :
    ReadsOn (fun _ t => isPunct .atSign t = false ∧ isPunct .openParen t = false)
      (Passes Outlook.Engaged Outlook.Engaged)
      (List.Forall₂ (InvImage Eq DirectiveUse.unplaced)) Grammar.directives Grammar.directives :=
  directive.many _ (fun _ ends => ends.2) (.nil fun _ => id) fun _ _ x y => x.1.append y

theorem directivesWithin :
    ReadsOn (fun _ _ => False) Balanced (List.Forall₂ (InvImage Eq DirectiveUse.unplaced))
      Grammar.directives Grammar.directives :=
  directives.mono (fun _ _ => False.elim) (fun _ passes => passes.balanced) fun _ _ => id

end ReadsOn

end GraphQLStatics.Grammar
