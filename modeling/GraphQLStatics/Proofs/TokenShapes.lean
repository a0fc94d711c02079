import GraphQLStatics.Grammar.TypeSystem
import GraphQLStatics.Proofs.RunTexts

/-!
# Shapes of definitions

What a survey makes of the tokens of a definition, told from their brackets and
from the names outside of them.

## Main Definitions

* `Balanced`: brackets open and close in pairs
* `Passes`: tokens outside brackets that begin no definition
* `Shape`: the tokens of a definition

## Main Statements

* `Balanced.readAll`: nothing begins within brackets
* `Passes.append`, `Passes.brackets`: passing parts make up passing wholes
-/

namespace GraphQLStatics

open Text

/-- The tokens of lexemes. -/
abbrev tokens (lexemes : List Lexeme) : List Token :=
  lexemes.map Lexeme.token

/-! ### Brackets in pairs -/

/-- Brackets open and close in pairs. -/
inductive Balanced : List Token → Prop
  | nil : Balanced []
  | inert {token : Token} {rest : List Token} (opening : token.isOpening = false)
      (closing : token.isClosing = false) (balanced : Balanced rest) : Balanced (token :: rest)
  | pair {left right : Token} {inner rest : List Token} (opening : left.isOpening = true)
      (closing : right.isClosing = true) (within : Balanced inner) (balanced : Balanced rest) :
      Balanced (left :: (inner ++ right :: rest))

namespace Balanced

theorem append {a b : List Token} (first : Balanced a) (second : Balanced b) :
    Balanced (a ++ b) := by
  induction first with
  | nil => exact second
  | inert opening closing _ ih => exact .inert opening closing ih
  | pair opening closing within _ _ ih =>
      rw [List.cons_append, List.append_assoc, List.cons_append]
      exact .pair opening closing within ih

theorem single {token : Token} (opening : token.isOpening = false)
    (closing : token.isClosing = false) : Balanced [token] :=
  .inert opening closing .nil

theorem brackets {left right : Token} {inner : List Token} (opening : left.isOpening = true)
    (closing : right.isClosing = true) (within : Balanced inner) :
    Balanced (left :: (inner ++ [right])) :=
  .pair opening closing within .nil

end Balanced

theorem Token.exclusive {token : Token} (opening : token.isOpening = true) :
    token.isClosing = false := by
  cases token with
  | punct p => cases p <;> first | rfl | cases opening
  | _ => rfl

theorem Token.noOpening {token : Token} (closing : token.isClosing = true) :
    token.isOpening = false := by
  cases opening : token.isOpening with
  | false => rfl
  | true => rw [Token.exclusive opening] at closing; cases closing

/-- Lexemes whose tokens fall into two parts. -/
theorem exists_of_tokens_append {lexemes : List Lexeme} {a b : List Token}
    (eq : tokens lexemes = a ++ b) :
    ∃ first second, lexemes = first ++ second ∧ tokens first = a ∧ tokens second = b :=
  List.map_eq_append_iff.mp eq

theorem exists_of_tokens_cons {lexemes : List Lexeme} {token : Token} {rest : List Token}
    (eq : tokens lexemes = token :: rest) :
    ∃ ℓ later, lexemes = ℓ :: later ∧ ℓ.token = token ∧ tokens later = rest :=
  List.map_eq_cons_iff.mp eq

namespace Balanced

/-- Balanced brackets do not matter to those around them. -/
theorem nested {ts : List Token} (balanced : Balanced ts) {lexemes : List Lexeme}
    (eq : tokens lexemes = ts) (depth : Nat) (later : List Lexeme) :
    GraphQLStatics.nested depth (lexemes ++ later) = GraphQLStatics.nested depth later := by
  induction balanced generalizing lexemes depth later with
  | nil => cases List.map_eq_nil_iff.mp eq; rfl
  | inert opening closing _ ih =>
      obtain ⟨ℓ, rest, rfl, rfl, restEq⟩ := exists_of_tokens_cons eq
      simp only [List.cons_append, GraphQLStatics.nested, opening, closing, Bool.not_false,
        Bool.true_or, Bool.true_and, Bool.toNat_false, Nat.add_zero, Nat.sub_zero]
      exact ih restEq depth later
  | pair opening closing _ _ ihInner ih =>
      obtain ⟨ℓ, more, rfl, rfl, moreEq⟩ := exists_of_tokens_cons eq
      obtain ⟨inner, more, rfl, innerEq, moreEq⟩ := exists_of_tokens_append moreEq
      obtain ⟨right, rest, rfl, rfl, restEq⟩ := exists_of_tokens_cons moreEq
      rw [List.cons_append, List.append_assoc, GraphQLStatics.nested, ihInner innerEq,
        List.cons_append, GraphQLStatics.nested, ih restEq]
      simp [opening, closing, Token.exclusive opening, Token.noOpening closing]

/-- As many brackets open as close. -/
theorem countP {ts : List Token} (balanced : Balanced ts) :
    ts.countP Token.isOpening = ts.countP Token.isClosing := by
  induction balanced with
  | nil => rfl
  | inert opening closing _ ih => simp [opening, closing, ih]
  | pair opening closing _ _ ihInner ih =>
      simp [opening, closing, Token.exclusive opening, Token.noOpening closing, ihInner, ih]
      omega

/-- Nothing begins within brackets. -/
theorem readAll {ts : List Token} (balanced : Balanced ts) {lexemes : List Lexeme}
    (eq : tokens lexemes = ts) (depth : Nat) (outlook : Outlook) (starts : List (Nat × RunKind)) :
    ∃ outlook', (⟨depth + 1, outlook, starts⟩ : Survey).readAll lexemes =
      ⟨depth + 1, outlook', starts⟩ := by
  induction balanced generalizing lexemes depth outlook with
  | nil => cases List.map_eq_nil_iff.mp eq; exact ⟨outlook, rfl⟩
  | inert opening closing _ ih =>
      obtain ⟨ℓ, rest, rfl, rfl, restEq⟩ := exists_of_tokens_cons eq
      have step : (⟨depth + 1, outlook, starts⟩ : Survey).read ℓ.token ℓ.start =
          ⟨depth + 1, .after ℓ.token, starts⟩ := by
        simp [Survey.read, Survey.begins?, opening, closing]
      obtain ⟨outlook', read⟩ := ih restEq depth (.after ℓ.token)
      exact ⟨outlook', by rw [Survey.readAll_cons, step, read]⟩
  | pair opening closing _ _ ihInner ih =>
      obtain ⟨ℓ, more, rfl, rfl, moreEq⟩ := exists_of_tokens_cons eq
      obtain ⟨inner, more, rfl, innerEq, moreEq⟩ := exists_of_tokens_append moreEq
      obtain ⟨right, rest, rfl, rfl, restEq⟩ := exists_of_tokens_cons moreEq
      have enter : (⟨depth + 1, outlook, starts⟩ : Survey).read ℓ.token ℓ.start =
          ⟨depth + 2, .after ℓ.token, starts⟩ := by
        simp [Survey.read, Survey.begins?, opening, Token.exclusive opening]
      obtain ⟨within, readInner⟩ := ihInner innerEq (depth + 1) (.after ℓ.token)
      have leave : (⟨depth + 2, within, starts⟩ : Survey).read right.token right.start =
          ⟨depth + 1, .after right.token, starts⟩ := by
        simp [Survey.read, Survey.begins?, closing, Token.noOpening closing]
      obtain ⟨outlook', read⟩ := ih restEq depth (.after right.token)
      refine ⟨outlook', ?_⟩
      rw [Survey.readAll_cons, enter, Survey.readAll_append, readInner, Survey.readAll_cons, leave,
        read]

end Balanced

/-! ### Passing over tokens -/

/-- Tokens outside brackets that begin no definition: from an outlook in `A` they
lead to one in `B`. -/
structure Passes (A B : Outlook → Prop) (ts : List Token) : Prop where
  balanced : Balanced ts
  readAll : ∀ {lexemes : List Lexeme}, tokens lexemes = ts → ∀ {outlook : Outlook}, A outlook →
    ∀ starts, ∃ outlook', B outlook' ∧
      (⟨0, outlook, starts⟩ : Survey).readAll lexemes = ⟨0, outlook', starts⟩

/-- A definition is going on. -/
def Outlook.Engaged (outlook : Outlook) : Prop :=
  outlook ≠ .top

namespace Passes

variable {A B C : Outlook → Prop}

theorem nil (weaker : ∀ o, A o → B o) : Passes A B [] where
  balanced := .nil
  readAll := fun eq o admitted starts => by
    cases List.map_eq_nil_iff.mp eq
    exact ⟨o, weaker o admitted, rfl⟩

theorem mono {A' B' : Outlook → Prop} {ts : List Token} (passes : Passes A B ts)
    (before : ∀ o, A' o → A o) (after : ∀ o, B o → B' o) : Passes A' B' ts where
  balanced := passes.balanced
  readAll := fun eq o admitted starts => by
    obtain ⟨o', reached, read⟩ := passes.readAll eq (before o admitted) starts
    exact ⟨o', after o' reached, read⟩

theorem append {a b : List Token} (first : Passes A B a) (second : Passes B C b) :
    Passes A C (a ++ b) where
  balanced := first.balanced.append second.balanced
  readAll := fun eq o admitted starts => by
    obtain ⟨x, y, rfl, xEq, yEq⟩ := exists_of_tokens_append eq
    obtain ⟨middle, reached, readX⟩ := first.readAll xEq admitted starts
    obtain ⟨last, reached, readY⟩ := second.readAll yEq reached starts
    exact ⟨last, reached, by rw [Survey.readAll_append, readX, readY]⟩

/-- A token that begins nothing. -/
theorem single {token : Token} (opening : token.isOpening = false)
    (closing : token.isClosing = false)
    (quiet : ∀ o starts, A o → (⟨0, o, starts⟩ : Survey).begins? token = none) :
    Passes A (· = .after token) [token] where
  balanced := .single opening closing
  readAll := fun eq o admitted starts => by
    obtain ⟨ℓ, rest, rfl, rfl, restEq⟩ := exists_of_tokens_cons eq
    cases List.map_eq_nil_iff.mp restEq
    refine ⟨_, rfl, ?_⟩
    simp [Survey.readAll, Survey.read, quiet o starts admitted, opening, closing]

theorem punct {p : Punctuator} (opening : p.isOpening = false) (closing : p.isClosing = false) :
    Passes (fun _ => True) (· = .after (.punct p)) [.punct p] := by
  refine single opening closing fun o starts _ => ?_
  cases p <;> first | rfl | cases opening

/-- A name that no other token ties to the one before it. -/
theorem name (text : String) : Passes (· = .bound) Outlook.Engaged [.name text] := by
  refine (single rfl rfl ?_).mono (fun _ => id) ?_
  · rintro o starts rfl
    rfl
  · rintro o rfl
    change (if (Splitter.Last.name text).mayPrecede then Outlook.free else .bound) ≠ .top
    split <;> exact Outlook.noConfusion

/-- A name that is no keyword of a definition. -/
theorem word (text : String) (other : RunKind.ofKeyword? text = none) :
    Passes (fun _ => True) (· = .after (.name text)) [.name text] := by
  refine single rfl rfl fun o starts _ => ?_
  simp [Survey.begins?, other]

/-- Brackets and what is within. -/
theorem brackets {p q : Punctuator} {inner : List Token} (opening : p.isOpening = true)
    (closing : q.isClosing = true) (within : Balanced inner)
    (engaged : ∀ o, A o → p = .openBrace → o.Engaged) :
    Passes A (· = .after (.punct q)) (.punct p :: (inner ++ [.punct q])) where
  balanced := .brackets opening closing within
  readAll := fun {lexemes} eq {o} admitted starts => by
    obtain ⟨ℓ, more, rfl, left, moreEq⟩ := exists_of_tokens_cons eq
    obtain ⟨inner, more, rfl, innerEq, moreEq⟩ := exists_of_tokens_append moreEq
    obtain ⟨r, rest, rfl, right, restEq⟩ := exists_of_tokens_cons moreEq
    cases List.map_eq_nil_iff.mp restEq
    -- a brace would begin an operation if no definition were going on
    have quiet : (⟨0, o, starts⟩ : Survey).begins? (.punct p) = none := by
      cases p with
      | openBrace =>
          have engaged : o ≠ .top := engaged o admitted rfl
          simp [Survey.begins?, engaged]
      | _ => rfl
    have opens : (Token.punct p).isOpening = true := opening
    have closes : (Token.punct q).isClosing = true := closing
    have enter : (⟨0, o, starts⟩ : Survey).read ℓ.token ℓ.start =
        ⟨1, .after (.punct p), starts⟩ := by
      simp [Survey.read, left, quiet, opens, Token.exclusive opens]
    obtain ⟨reached, read⟩ := within.readAll innerEq 0 (.after (.punct p)) starts
    have leave : (⟨1, reached, starts⟩ : Survey).read r.token r.start =
        ⟨0, .after (.punct q), starts⟩ := by
      simp [Survey.read, Survey.begins?, right, closes, Token.noOpening closes]
    refine ⟨_, rfl, ?_⟩
    rw [Survey.readAll_cons, enter, Survey.readAll_append, read, Survey.readAll_cons, leave]
    rfl

end Passes

/-! ### Definitions -/

/-- The tokens of a definition of some kind: it can be seen to begin with its
first token, and nothing else is seen to begin.  After one that can be executed
anything may begin. -/
structure Shape (kind : RunKind) (ts : List Token) : Prop where
  balanced : Balanced ts
  opens : ∃ token ∈ ts.head?, Survey.initial.begins? token = some kind
  readAll : ∀ {ℓ : Lexeme} {later : List Lexeme}, tokens (ℓ :: later) = ts → ∀ outlook starts,
    ∃ outlook', (kind = .executable → outlook' = .top) ∧
      (⟨0, outlook, starts⟩ : Survey).readAll (ℓ :: later) =
        ⟨0, outlook', ((⟨0, outlook, starts⟩ : Survey).read ℓ.token ℓ.start).starts⟩

/-- A keyword of a definition ties the name after it. -/
theorem Outlook.after_keyword {word : String} {kind : RunKind}
    (keyword : RunKind.ofKeyword? word = some kind) : Outlook.after (.name word) = .bound := by
  simp [Outlook.after, Splitter.Last.mayPrecede, keyword]

namespace Shape

theorem firm {kind : RunKind} {ts : List Token} (shape : Shape kind ts) : ts ≠ [] := by
  rintro rfl
  obtain ⟨token, mem, -⟩ := shape.opens
  cases mem

/-- A definition that begins with a token of its own. -/
theorem ofHead {head : Token} {kind : RunKind} {B : Outlook → Prop} {rest : List Token}
    (opening : head.isOpening = false) (closing : head.isClosing = false)
    (begins : Survey.initial.begins? head = some kind) (passes : Passes (· = .after head) B rest)
    (ends : kind = .executable → ∀ o, B o → o = .top) : Shape kind (head :: rest) where
  balanced := .inert opening closing passes.balanced
  opens := ⟨head, rfl, begins⟩
  readAll := fun {ℓ later} eq outlook starts => by
    obtain ⟨rfl, restEq⟩ := List.cons.inj eq
    have step : (⟨0, outlook, starts⟩ : Survey).read ℓ.token ℓ.start =
        ⟨0, .after ℓ.token, ((⟨0, outlook, starts⟩ : Survey).read ℓ.token ℓ.start).starts⟩ := by
      simp only [Survey.read, opening, closing]
      rfl
    obtain ⟨outlook', reached, read⟩ := passes.readAll restEq rfl
      ((⟨0, outlook, starts⟩ : Survey).read ℓ.token ℓ.start).starts
    exact ⟨outlook', fun executable => ends executable _ reached,
      by rw [Survey.readAll_cons, step, read]⟩

/-- A definition that begins with its keyword. -/
theorem ofKeyword {word : String} {kind : RunKind} {B : Outlook → Prop} {rest : List Token}
    (keyword : RunKind.ofKeyword? word = some kind) (passes : Passes (· = .bound) B rest)
    (ends : kind = .executable → ∀ o, B o → o = .top) : Shape kind (.name word :: rest) := by
  refine ofHead rfl rfl ?_ (passes.mono ?_ fun _ => id) ends
  · simp [Survey.begins?, Survey.initial, keyword]
  · rintro o rfl
    exact Outlook.after_keyword keyword

/-- A definition that begins with a description. -/
theorem ofDescription {description : Token} {word : String} {kind : RunKind} {B : Outlook → Prop}
    {rest : List Token} (string : Grammar.startsDescription description = true)
    (keyword : RunKind.ofKeyword? word = some kind) (passes : Passes (· = .bound) B rest) :
    Shape .typeSystem (description :: .name word :: rest) := by
  have second : Passes (· = .described) (· = .bound) [.name word] := by
    refine (Passes.single rfl rfl ?_).mono (fun _ => id) ?_
    · rintro o starts rfl
      rfl
    · rintro o rfl
      exact Outlook.after_keyword keyword
  cases description with
  | string body => exact ofHead rfl rfl rfl (second.append passes) RunKind.noConfusion
  | blockString body => exact ofHead rfl rfl rfl (second.append passes) RunKind.noConfusion
  | _ => cases string

/-- A definition that is nothing but braces. -/
theorem ofBraces {inner : List Token} (within : Balanced inner) :
    Shape .executable (.punct .openBrace :: (inner ++ [.punct .closeBrace])) where
  balanced := .brackets rfl rfl within
  opens := ⟨_, rfl, rfl⟩
  readAll := fun {ℓ later} eq outlook starts => by
    obtain ⟨left, laterEq⟩ := List.cons.inj eq
    obtain ⟨inner, more, rfl, innerEq, moreEq⟩ := exists_of_tokens_append laterEq
    obtain ⟨r, rest, rfl, right, restEq⟩ := exists_of_tokens_cons moreEq
    cases List.map_eq_nil_iff.mp restEq
    have enter : (⟨0, outlook, starts⟩ : Survey).read ℓ.token ℓ.start =
        ⟨1, .free, ((⟨0, outlook, starts⟩ : Survey).read ℓ.token ℓ.start).starts⟩ := by
      rw [left]
      rfl
    obtain ⟨reached, read⟩ := within.readAll innerEq 0 .free
      ((⟨0, outlook, starts⟩ : Survey).read ℓ.token ℓ.start).starts
    refine ⟨.top, fun _ => rfl, ?_⟩
    rw [Survey.readAll_cons, enter, Survey.readAll_append, read, Survey.readAll_cons, right]
    rfl

end Shape

end GraphQLStatics
