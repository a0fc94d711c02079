import GraphQLStatics.Proofs.TokenShapes

/-!
# Reading on after an item

A parser looks at no more than the next token.  What it makes of some lexemes it
therefore makes of lexemes with the same tokens, wherever they stand and whatever
follows them, as long as what follows does not go on with the item.

## Main Definitions

* `Grammar.Admits`: what may follow
* `Grammar.ReadsOn`: an item is read alike whatever follows it

## Main Statements

* `Grammar.ReadsOn.bind`, `Grammar.ReadsOn.bindFirm`: one part after another
* `Grammar.ReadsOn.optional`, `Grammar.ReadsOn.many`: parts that may be missing
-/

namespace GraphQLStatics.Grammar

variable {α β γ δ : Type}

/-- What follows begins with a token of a class, if there is anything. -/
def Admits (K : Token → Prop) (extra : List Lexeme) : Prop :=
  ∀ ℓ ∈ extra.head?, K ℓ.token

/-- Where `p` reads an item, its tokens are in `P`, and `q` reads a related item
from any lexemes with these tokens.  If nothing was left after the item, what
follows it then has to begin with a token in `H`. -/
structure ReadsOn (H : α → Token → Prop) (P : List Token → Prop) (R : α → β → Prop)
    (p : Parse α) (q : Parse β) : Prop where
  spells : ∀ {lexemes rest : List Lexeme} {a : α}, p lexemes = .ok (a, rest) →
    ∃ used, lexemes = used ++ rest ∧ P (tokens used)
  again : ∀ {lexemes rest : List Lexeme} {a : α}, p lexemes = .ok (a, rest) →
    ∀ {others extra : List Lexeme}, tokens others = tokens lexemes →
      (rest = [] → Admits (H a) extra) →
      ∃ b rest', q (others ++ extra) = .ok (b, rest' ++ extra) ∧ R a b ∧ tokens rest' = tokens rest

/-! ### Sequences -/

theorem bind_eq_ok {p : Parse α} {f : α → Parse γ} {lexemes rest : List Lexeme} {c : γ} :
    (p >>= f) lexemes = .ok (c, rest) ↔
      ∃ a middle, p lexemes = .ok (a, middle) ∧ f a middle = .ok (c, rest) := by
  change (p lexemes >>= fun x => f x.1 x.2) = _ ↔ _
  cases p lexemes with
  | error fault => simp [bind, Except.bind]
  | ok result =>
      obtain ⟨a, middle⟩ := result
      simp [bind, Except.bind]

namespace ReadsOn

variable {H : α → Token → Prop} {P Q S : List Token → Prop} {R : α → β → Prop}
  {p : Parse α} {q : Parse β}

theorem mono {H' : α → Token → Prop} {R' : α → β → Prop} (reads : ReadsOn H P R p q)
    (admitted : ∀ a t, H' a t → H a t) (spelled : ∀ ts, P ts → S ts)
    (related : ∀ a b, R a b → R' a b) : ReadsOn H' S R' p q where
  spells := fun ok => by
    obtain ⟨used, eq, language⟩ := reads.spells ok
    exact ⟨used, eq, spelled _ language⟩
  again := fun ok others extra same follows => by
    obtain ⟨b, rest', ok', relation, left⟩ := reads.again ok same fun empty ℓ mem =>
      admitted _ _ (follows empty ℓ mem)
    exact ⟨b, rest', ok', related _ _ relation, left⟩

theorem pure {H : α → Token → Prop} {a : α} {b : β} (related : R a b) :
    ReadsOn H (· = []) R (pure a) (pure b) where
  spells := fun ok => by
    cases ok
    exact ⟨[], rfl, rfl⟩
  again := fun ok others extra same _ => by
    cases ok
    exact ⟨b, others, rfl, related, same⟩

/-- Nothing needs to follow. -/
theorem exists_related (reads : ReadsOn H P R p q) {lexemes rest : List Lexeme} {a : α}
    (ok : p lexemes = .ok (a, rest)) : ∃ b, R a b := by
  have nothing : rest = [] → Admits (H a) [] := fun _ ℓ mem => by cases mem
  obtain ⟨b, -, -, related, -⟩ := reads.again ok rfl nothing
  exact ⟨b, related⟩

/-- One part after another, where what may follow the second may also follow the
first, or else the second is not empty. -/
theorem bindOr {H' : γ → Token → Prop} {R' : γ → δ → Prop} {f : α → Parse γ} {g : β → Parse δ}
    (first : ReadsOn H P R p q) (second : ∀ a b, R a b → ReadsOn H' Q R' (f a) (g b))
    (inherit : (∀ a c t, (∃ lexemes rest, f a lexemes = .ok (c, rest)) → H' c t → H a t) ∨
      ∀ ts, Q ts → ts ≠ [])
    (concat : ∀ x y, P x → Q y → S (x ++ y)) : ReadsOn H' S R' (p >>= f) (q >>= g) where
  spells := fun {lexemes rest c} ok => by
    obtain ⟨a, middle, okP, okF⟩ := bind_eq_ok.mp ok
    obtain ⟨b, related⟩ := first.exists_related okP
    obtain ⟨used, rfl, language⟩ := first.spells okP
    obtain ⟨more, rfl, language'⟩ := (second a b related).spells okF
    refine ⟨used ++ more, (List.append_assoc _ _ _).symm, ?_⟩
    rw [tokens, List.map_append]
    exact concat _ _ language language'
  again := fun {lexemes rest c} ok {others extra} same follows => by
    obtain ⟨a, middle, okP, okF⟩ := bind_eq_ok.mp ok
    obtain ⟨b₀, related₀⟩ := first.exists_related okP
    -- the first part only meets what follows if the second is empty
    have admitted : middle = [] → Admits (H a) extra := by
      rintro rfl
      obtain ⟨used, eq, language⟩ := (second a b₀ related₀).spells okF
      obtain ⟨rfl, rfl⟩ := List.append_eq_nil_iff.mp eq.symm
      obtain weaker | firm := inherit
      · exact fun ℓ mem => weaker a c ℓ.token ⟨_, _, okF⟩ (follows rfl ℓ mem)
      · exact absurd rfl (firm _ language)
    obtain ⟨b, middle', okQ, related, left⟩ := first.again okP same admitted
    obtain ⟨d, rest', okG, related', left'⟩ := (second a b related).again okF left follows
    exact ⟨d, rest', bind_eq_ok.mpr ⟨b, _, okQ, okG⟩, related', left'⟩

/-- One part after another, where what may follow the second may also follow the
first. -/
theorem bind {H' : γ → Token → Prop} {R' : γ → δ → Prop} {f : α → Parse γ} {g : β → Parse δ}
    (first : ReadsOn H P R p q) (second : ∀ a b, R a b → ReadsOn H' Q R' (f a) (g b))
    (inherit : ∀ a c t, H' c t → H a t) (concat : ∀ x y, P x → Q y → S (x ++ y)) :
    ReadsOn H' S R' (p >>= f) (q >>= g) :=
  first.bindOr second (.inl fun a c t _ => inherit a c t) concat

/-- One part after another, where the second is not empty. -/
theorem bindFirm {H' : γ → Token → Prop} {R' : γ → δ → Prop} {f : α → Parse γ} {g : β → Parse δ}
    (first : ReadsOn H P R p q) (second : ∀ a b, R a b → ReadsOn H' Q R' (f a) (g b))
    (firm : ∀ ts, Q ts → ts ≠ []) (concat : ∀ x y, P x → Q y → S (x ++ y)) :
    ReadsOn H' S R' (p >>= f) (q >>= g) :=
  first.bindOr second (.inr firm) concat

/-- A result is made of what has been read, or refused. -/
theorem concludes {R' : γ → δ → Prop} {H' : γ → Token → Prop} {f : α → Parse γ} {g : β → Parse δ}
    (reads : ReadsOn H P R p q)
    (conclusion : ∀ a b, R a b → ReadsOn H' (· = []) R' (f a) (g b))
    (admitted : ∀ a c t, (∃ lexemes rest, f a lexemes = .ok (c, rest)) → H' c t → H a t) :
    ReadsOn H' P R' (p >>= f) (q >>= g) := by
  refine reads.bindOr conclusion (.inl admitted) ?_
  rintro x _ language rfl
  rwa [List.append_nil]

/-- A result is made of what has been read. -/
theorem returns {R' : γ → δ → Prop} {H' : γ → Token → Prop} {f : α → γ} {g : β → δ}
    (reads : ReadsOn H P R p q) (related : ∀ a b, R a b → R' (f a) (g b))
    (admitted : ∀ a t, H' (f a) t → H a t) :
    ReadsOn H' P R' (p >>= fun a => Pure.pure (f a)) (q >>= fun b => Pure.pure (g b)) := by
  refine reads.concludes (fun a b relation => pure (related a b relation)) ?_
  rintro a c t ⟨lexemes, rest, ok⟩ follows
  cases ok
  exact admitted a t follows

/-! ### Single lexemes -/

/-- A position does not matter. -/
theorem here {H : Position → Token → Prop} :
    ReadsOn H (· = []) (fun _ _ => True) Grammar.here Grammar.here where
  spells := fun {lexemes rest position} ok => by
    cases lexemes with
    | nil => cases ok
    | cons ℓ lexemes => cases ok; exact ⟨[], rfl, rfl⟩
  again := fun {lexemes rest position} ok {others extra} same _ => by
    cases lexemes with
    | nil => cases ok
    | cons ℓ lexemes =>
        cases ok
        obtain ⟨ℓ', others, rfl, -, -⟩ := exists_of_tokens_cons same
        exact ⟨ℓ'.position, _, rfl, trivial, same⟩

/-- A token is what it is, wherever it stands. -/
theorem take {H : α → Token → Prop} (f : Token → Option α) :
    ReadsOn H (fun ts => ∃ token, ts = [token] ∧ (f token).isSome) Eq (Grammar.take f)
      (Grammar.take f) where
  spells := fun {lexemes rest a} ok => by
    cases lexemes with
    | nil => cases ok
    | cons ℓ lexemes =>
        unfold Grammar.take at ok
        dsimp only at ok
        cases found : f ℓ.token with
        | none => rw [found] at ok; cases ok
        | some a =>
            rw [found] at ok
            cases ok
            exact ⟨[ℓ], rfl, ℓ.token, rfl, by rw [found]; rfl⟩
  again := fun {lexemes rest a} ok {others extra} same _ => by
    cases lexemes with
    | nil => cases ok
    | cons ℓ lexemes =>
        obtain ⟨ℓ', others, rfl, token, left⟩ := exists_of_tokens_cons same
        unfold Grammar.take at ok ⊢
        dsimp only [List.cons_append] at ok ⊢
        rw [token]
        cases found : f ℓ.token with
        | none => rw [found] at ok; cases ok
        | some a =>
            rw [found] at ok
            cases ok
            exact ⟨a, others, rfl, rfl, left⟩

theorem punct {H : Unit → Token → Prop} (p : Punctuator) :
    ReadsOn H (· = [.punct p]) Eq (Grammar.punct p) (Grammar.punct p) := by
  refine (take _).mono (fun _ _ => id) ?_ (fun _ _ => id)
  rintro ts ⟨token, rfl, found⟩
  simp only [isPunct, decide_eq_true_eq] at found
  split at found
  · rename_i eq
    rw [eq]
  · cases found

theorem name {H : String → Token → Prop} :
    ReadsOn H (fun ts => ∃ text, ts = [.name text]) Eq Grammar.name Grammar.name := by
  refine (take _).mono (fun _ _ => id) ?_ (fun _ _ => id)
  rintro ts ⟨token, rfl, found⟩
  cases token with
  | name text => exact ⟨text, rfl⟩
  | _ => cases found

theorem keyword {H : Unit → Token → Prop} (word : String) :
    ReadsOn H (· = [.name word]) Eq (Grammar.keyword word) (Grammar.keyword word) := by
  refine (take _).mono (fun _ _ => id) ?_ (fun _ _ => id)
  rintro ts ⟨token, rfl, found⟩
  simp only [isWord, decide_eq_true_eq] at found
  split at found
  · rename_i eq
    rw [eq]
  · cases found

/-! ### Choices -/

section Choices

variable {H : γ → Token → Prop} {P : List Token → Prop} {R : γ → δ → Prop}

theorem nextIs_eq_ok {starts : Token → Bool} {lexemes rest : List Lexeme} {b : Bool} :
    nextIs starts lexemes = .ok (b, rest) ↔
      lexemes.head?.any (fun ℓ => starts ℓ.token) = b ∧ lexemes = rest := by
  simp [nextIs]

/-- What is not empty begins with the same token anywhere. -/
theorem head?_of_spells {H : γ → Token → Prop} {p : Parse γ} {q : Parse δ}
    (reads : ReadsOn H P R p q) (firm : ∀ ts, P ts → ts ≠ []) {lexemes rest others : List Lexeme}
    {c : γ} (ok : p lexemes = .ok (c, rest)) (same : tokens others = tokens lexemes)
    (extra : List Lexeme) :
    ((others ++ extra).head?).map Lexeme.token = lexemes.head?.map Lexeme.token := by
  obtain ⟨used, rfl, language⟩ := reads.spells ok
  cases used with
  | nil => exact absurd rfl (firm _ language)
  | cons ℓ used =>
      obtain ⟨ℓ', others, rfl, token, -⟩ := exists_of_tokens_cons same
      simp [token]

/-- A choice by the next token. -/
theorem next {starts : Token → Bool} {f : Bool → Parse γ} {g : Bool → Parse δ}
    (branches : ∀ b, ReadsOn H P R (f b) (g b)) (firm : ∀ ts, P ts → ts ≠ []) :
    ReadsOn H P R (nextIs starts >>= f) (nextIs starts >>= g) where
  spells := fun ok => by
    obtain ⟨b, middle, okN, okF⟩ := bind_eq_ok.mp ok
    obtain ⟨-, rfl⟩ := nextIs_eq_ok.mp okN
    exact (branches b).spells okF
  again := fun {lexemes rest c} ok {others extra} same follows => by
    obtain ⟨b, middle, okN, okF⟩ := bind_eq_ok.mp ok
    obtain ⟨decided, rfl⟩ := nextIs_eq_ok.mp okN
    have head := head?_of_spells (branches b) firm okF same extra
    obtain ⟨d, rest', okG, related, left⟩ := (branches b).again okF same follows
    refine ⟨d, rest', bind_eq_ok.mpr ⟨b, _, nextIs_eq_ok.mpr ⟨?_, rfl⟩, okG⟩, related, left⟩
    rw [← decided]
    have any := congrArg (Option.any starts) head
    simpa only [Option.any_map] using any

/-- A choice by the next token, all of it. -/
theorem peek {f : Option Token → Parse γ} {g : Option Token → Parse δ}
    (branches : ∀ token, ReadsOn H P R (f token) (g token)) (firm : ∀ ts, P ts → ts ≠ []) :
    ReadsOn H P R (Grammar.peek >>= f) (Grammar.peek >>= g) where
  spells := fun ok => by
    obtain ⟨token, middle, okN, okF⟩ := bind_eq_ok.mp ok
    cases okN
    exact (branches _).spells okF
  again := fun {lexemes rest c} ok {others extra} same follows => by
    obtain ⟨token, middle, okN, okF⟩ := bind_eq_ok.mp ok
    cases okN
    have head := head?_of_spells (branches _) firm okF same extra
    obtain ⟨d, rest', okG, related, left⟩ := (branches _).again okF same follows
    refine ⟨d, rest', bind_eq_ok.mpr ⟨_, _, ?_, okG⟩, related, left⟩
    unfold Grammar.peek
    rw [head]

end Choices

/-! ### Parts that may be missing -/

/-- What may follow a part that may be missing. -/
def orMissing (starts : Token → Bool) (H : α → Token → Prop) : Option α → Token → Prop
  | none, t => starts t = false
  | some a, t => H a t

theorem optional_eq_ok {starts : Token → Bool} {item : Parse α} {lexemes rest : List Lexeme}
    {found : Option α} :
    optional starts item lexemes = .ok (found, rest) ↔
      (lexemes.head?.any (fun ℓ => starts ℓ.token) = false ∧ found = none ∧ lexemes = rest) ∨
        (lexemes.head?.any (fun ℓ => starts ℓ.token) = true ∧
          ∃ a, found = some a ∧ item lexemes = .ok (a, rest)) := by
  unfold Grammar.optional
  rw [bind_eq_ok]
  constructor
  · rintro ⟨b, middle, okN, okF⟩
    obtain ⟨decided, rfl⟩ := nextIs_eq_ok.mp okN
    cases b with
    | false =>
        cases okF
        exact .inl ⟨decided, rfl, rfl⟩
    | true =>
        obtain ⟨a, middle, ok, okF⟩ := bind_eq_ok.mp okF
        cases okF
        exact .inr ⟨decided, a, rfl, ok⟩
  · rintro (⟨decided, rfl, rfl⟩ | ⟨decided, a, rfl, ok⟩)
    · exact ⟨false, lexemes, nextIs_eq_ok.mpr ⟨decided, rfl⟩, rfl⟩
    · exact ⟨true, lexemes, nextIs_eq_ok.mpr ⟨decided, rfl⟩, bind_eq_ok.mpr ⟨a, rest, ok, rfl⟩⟩

/-- Whether a part is missing does not depend on what follows. -/
theorem any_head?_append {starts : Token → Bool} {lexemes others extra : List Lexeme}
    (same : tokens others = tokens lexemes)
    (follows : lexemes = [] → Admits (fun t => starts t = false) extra) :
    (others ++ extra).head?.any (fun ℓ => starts ℓ.token) =
      lexemes.head?.any (fun ℓ => starts ℓ.token) := by
  cases lexemes with
  | nil =>
      cases List.map_eq_nil_iff.mp same
      cases extra with
      | nil => rfl
      | cons ℓ extra => exact follows rfl ℓ rfl
  | cons ℓ lexemes =>
      obtain ⟨ℓ', others, rfl, token, -⟩ := exists_of_tokens_cons same
      simp [token]

theorem optional (starts : Token → Bool) (reads : ReadsOn H P R p q) :
    ReadsOn (orMissing starts H) (fun ts => ts = [] ∨ P ts) (Option.Rel R)
      (Grammar.optional starts p) (Grammar.optional starts q) where
  spells := fun ok => by
    obtain ⟨-, rfl, rfl⟩ | ⟨-, a, rfl, okItem⟩ := optional_eq_ok.mp ok
    · exact ⟨[], rfl, .inl rfl⟩
    · obtain ⟨used, eq, language⟩ := reads.spells okItem
      exact ⟨used, eq, .inr language⟩
  again := fun {lexemes rest found} ok {others extra} same follows => by
    obtain ⟨decided, rfl, rfl⟩ | ⟨decided, a, rfl, okItem⟩ := optional_eq_ok.mp ok
    · refine ⟨none, others, optional_eq_ok.mpr (.inl ⟨?_, rfl, rfl⟩), .none, same⟩
      rw [any_head?_append same follows]
      exact decided
    · obtain ⟨b, rest', okAgain, related, left⟩ := reads.again okItem same follows
      refine ⟨some b, rest', optional_eq_ok.mpr (.inr ⟨?_, b, rfl, okAgain⟩), .some related, left⟩
      rw [any_head?_append same fun empty => by rw [empty] at decided; cases decided]
      exact decided

/-- A token that may be missing. -/
theorem skipIf (starts : Token → Bool) :
    ReadsOn (fun found t => found = false → starts t = false)
      (fun ts => ts = [] ∨ ∃ token, ts = [token] ∧ starts token = true) Eq
      (Grammar.skipIf starts) (Grammar.skipIf starts) where
  spells := fun ok => by
    obtain ⟨b, middle, okN, okF⟩ := bind_eq_ok.mp ok
    obtain ⟨decided, rfl⟩ := nextIs_eq_ok.mp okN
    cases b with
    | false => cases okF; exact ⟨[], rfl, .inl rfl⟩
    | true =>
        obtain ⟨used, rfl, token, spelled, -⟩ :=
          (take (H := fun _ _ => True) fun _ => some true).spells okF
        refine ⟨used, rfl, .inr ⟨token, spelled, ?_⟩⟩
        obtain ⟨ℓ, later, rfl, rfl, -⟩ := exists_of_tokens_cons spelled
        exact decided
  again := fun {lexemes rest found} ok {others extra} same follows => by
    obtain ⟨b, middle, okN, okF⟩ := bind_eq_ok.mp ok
    obtain ⟨decided, rfl⟩ := nextIs_eq_ok.mp okN
    have again : (others ++ extra).head?.any (fun ℓ => starts ℓ.token) = b := by
      refine (any_head?_append same ?_).trans decided
      rintro rfl
      cases decided
      cases okF
      exact fun ℓ mem => follows rfl ℓ mem rfl
    cases b with
    | false =>
        cases okF
        refine ⟨false, others, bind_eq_ok.mpr ⟨false, _, ?_, rfl⟩, rfl, same⟩
        exact nextIs_eq_ok.mpr ⟨again, rfl⟩
    | true =>
        have any : rest = [] → Admits (fun _ => True) extra := fun _ _ _ => trivial
        obtain ⟨b, rest', okAgain, related, left⟩ :=
          (take (H := fun _ _ => True) fun _ => some true).again okF same any
        exact ⟨b, rest', bind_eq_ok.mpr ⟨true, _, nextIs_eq_ok.mpr ⟨again, rfl⟩, okAgain⟩, related,
          left⟩

/-! ### Repetition -/

/-- Reading with enough fuel. -/
theorem manyWithin {K : Token → Prop} {starts : Token → Bool}
    (item : ReadsOn (fun _ => K) P R p q) (firm : ∀ ts, P ts → ts ≠ [])
    (nil : S []) (cons : ∀ x y, P x → S y → S (x ++ y)) {n m : Nat} (fuel : n ≤ m)
    {lexemes rest : List Lexeme} {as : List α} (enough : lexemes.length ≤ n)
    (ok : Grammar.manyWithin starts p n lexemes = .ok (as, rest)) :
    (∃ used, lexemes = used ++ rest ∧ S (tokens used)) ∧
      ∀ {others extra : List Lexeme}, tokens others = tokens lexemes →
        (rest = [] → Admits (fun t => starts t = false ∧ K t) extra) →
        ∃ bs rest', Grammar.manyWithin starts q m (others ++ extra) = .ok (bs, rest' ++ extra) ∧
          List.Forall₂ R as bs ∧ tokens rest' = tokens rest := by
  induction n generalizing m lexemes rest as with
  | zero =>
      cases List.length_eq_zero_iff.mp (Nat.le_zero.mp enough)
      cases ok
      refine ⟨⟨[], rfl, nil⟩, fun {others extra} same follows => ?_⟩
      cases List.map_eq_nil_iff.mp same
      refine ⟨[], [], ?_, .nil, rfl⟩
      have stop : extra.head?.any (fun ℓ => starts ℓ.token) = false :=
        any_head?_append same fun _ ℓ mem => (follows rfl ℓ mem).1
      cases m with
      | zero => rfl
      | succ m => exact bind_eq_ok.mpr ⟨false, _, nextIs_eq_ok.mpr ⟨stop, rfl⟩, rfl⟩
  | succ n ih =>
      obtain ⟨m, rfl⟩ := Nat.exists_eq_add_of_le' (Nat.le_trans (Nat.le_add_left 1 n) fuel)
      obtain ⟨b, middle, okN, okF⟩ := bind_eq_ok.mp ok
      obtain ⟨decided, rfl⟩ := nextIs_eq_ok.mp okN
      cases b with
      | false =>
          cases okF
          refine ⟨⟨[], rfl, nil⟩, fun {others extra} same follows => ?_⟩
          refine ⟨[], others, ?_, .nil, same⟩
          have stop : (others ++ extra).head?.any (fun ℓ => starts ℓ.token) = false :=
            (any_head?_append same fun empty ℓ mem => (follows empty ℓ mem).1).trans decided
          exact bind_eq_ok.mpr ⟨false, _, nextIs_eq_ok.mpr ⟨stop, rfl⟩, rfl⟩
      | true =>
          obtain ⟨a, middle, okP, okRest⟩ := bind_eq_ok.mp okF
          obtain ⟨as, last, okMore, okReturn⟩ := bind_eq_ok.mp okRest
          cases okReturn
          obtain ⟨used, rfl, language⟩ := item.spells okP
          -- an item takes a lexeme at least, so that the fuel lasts
          have shorter : middle.length ≤ n := by
            have begun : used ≠ [] := fun empty => firm _ language (by rw [empty]; rfl)
            have := List.length_pos_iff.mpr begun
            rw [List.length_append] at enough
            omega
          obtain ⟨⟨more, rfl, language'⟩, again⟩ := ih (Nat.le_of_succ_le_succ fuel) shorter okMore
          refine ⟨⟨used ++ more, (List.append_assoc _ _ _).symm, ?_⟩, ?_⟩
          · rw [tokens, List.map_append]
            exact cons _ _ language language'
          · intro others extra same follows
            have next : (others ++ extra).head?.any (fun ℓ => starts ℓ.token) = true := by
              refine (any_head?_append same fun empty => ?_).trans decided
              rw [empty] at decided
              cases decided
            obtain ⟨b, middle', okQ, related, left⟩ := item.again okP same fun empty ℓ mem => by
              obtain ⟨rfl, rfl⟩ := List.append_eq_nil_iff.mp empty
              exact (follows rfl ℓ mem).2
            obtain ⟨bs, rest', okAgain, relatedMore, left'⟩ := again left follows
            refine ⟨b :: bs, rest', ?_, .cons related relatedMore, left'⟩
            exact bind_eq_ok.mpr ⟨true, _, nextIs_eq_ok.mpr ⟨next, rfl⟩, bind_eq_ok.mpr
              ⟨b, _, okQ, bind_eq_ok.mpr ⟨bs, _, okAgain, rfl⟩⟩⟩

/-- Items as long as the next token can begin one. -/
theorem many {K : Token → Prop} (starts : Token → Bool) (item : ReadsOn (fun _ => K) P R p q)
    (firm : ∀ ts, P ts → ts ≠ []) (nil : S []) (cons : ∀ x y, P x → S y → S (x ++ y)) :
    ReadsOn (fun _ t => starts t = false ∧ K t) S (List.Forall₂ R) (Grammar.many starts p)
      (Grammar.many starts q) where
  spells := fun ok =>
    (manyWithin item firm nil cons (Nat.le_refl _) (Nat.le_refl _) ok).1
  again := fun {lexemes rest as} ok {others extra} same follows => by
    have longer : lexemes.length ≤ (others ++ extra).length := by
      have := congrArg List.length same
      simp only [List.length_map, List.length_append] at this ⊢
      omega
    exact (manyWithin item firm nil cons longer (Nat.le_refl _) ok).2 same follows

/-- An item, and more as long as the next token can begin one. -/
theorem many1 {T : List Token → Prop} {K : Token → Prop} (starts : Token → Bool)
    (item : ReadsOn (fun _ => K) P R p q)
    (firm : ∀ ts, P ts → ts ≠ []) (nil : S []) (cons : ∀ x y, P x → S y → S (x ++ y))
    (first : ∀ x y, P x → S y → T (x ++ y)) :
    ReadsOn (fun _ t => starts t = false ∧ K t) T (List.Forall₂ R) (Grammar.many1 starts p)
      (Grammar.many1 starts q) :=
  item.bind
    (fun _ _ related => (many starts item firm nil cons).returns
      (fun _ _ more => .cons related more) fun _ _ => id)
    (fun _ _ _ admitted => admitted.2) first

/-- Parts that grow with what is left to read. -/
theorem fuelled {p : Nat → Parse α} {q : Nat → Parse β}
    (reads : ∀ {n m}, n ≤ m → ReadsOn H P R (p n) (q m)) :
    ReadsOn H P R (do p ((← get).length + 1)) (do q ((← get).length + 1)) where
  spells := fun {lexemes rest a} ok => (reads (Nat.le_refl (lexemes.length + 1))).spells ok
  again := fun {lexemes rest a} ok {others extra} same follows => by
    have longer : lexemes.length + 1 ≤ (others ++ extra).length + 1 := by
      have := congrArg List.length same
      simp only [List.length_map, List.length_append] at this ⊢
      omega
    exact (reads longer).again ok same follows

end ReadsOn

/-! ### Brackets -/

/-- Balanced brackets, and something at all. -/
def Filled (ts : List Token) : Prop :=
  Balanced ts ∧ ts ≠ []

/-- Balanced brackets within brackets. -/
def Enclosed (opening closing : Punctuator) (ts : List Token) : Prop :=
  ∃ inner, Balanced inner ∧ ts = .punct opening :: (inner ++ [.punct closing])

theorem Filled.firm (ts : List Token) (filled : Filled ts) : ts ≠ [] :=
  filled.2

theorem Enclosed.firm {opening closing : Punctuator} (ts : List Token)
    (enclosed : Enclosed opening closing ts) : ts ≠ [] := by
  obtain ⟨inner, -, rfl⟩ := enclosed
  exact List.cons_ne_nil _ _

theorem Enclosed.filled {opening closing : Punctuator} (opens : opening.isOpening = true)
    (closes : closing.isClosing = true) (ts : List Token)
    (enclosed : Enclosed opening closing ts) : Filled ts := by
  refine ⟨?_, enclosed.firm ts⟩
  obtain ⟨inner, balanced, rfl⟩ := enclosed
  exact .brackets opens closes balanced

theorem Enclosed.passes {opening closing : Punctuator} {ts : List Token}
    (opens : opening.isOpening = true) (closes : closing.isClosing = true)
    (enclosed : Enclosed opening closing ts) :
    Passes Outlook.Engaged (· = .after (.punct closing)) ts := by
  obtain ⟨inner, balanced, rfl⟩ := enclosed
  exact .brackets opens closes balanced fun _ engaged _ => engaged

namespace ReadsOn

variable {R : α → β → Prop} {p : Parse α} {q : Parse β}

/-- What is within brackets does not depend on what follows them. -/
theorem enclosed {H : α → Token → Prop} {K : α → Token → Prop} (opening closing : Punctuator)
    (inner : ReadsOn K Balanced R p q) :
    ReadsOn H (Enclosed opening closing) R
      (do Grammar.punct opening; let a ← p; Grammar.punct closing; return a)
      (do Grammar.punct opening; let b ← q; Grammar.punct closing; return b) := by
  have last (a : α) (b : β) (related : R a b) : ReadsOn H (· = [.punct closing]) R
      (do Grammar.punct closing; return a) (do Grammar.punct closing; return b) :=
    (punct (H := fun _ _ => True) closing).returns (fun _ _ _ => related) fun _ _ _ => trivial
  have rest := inner.bindFirm
    (S := fun ts => ∃ inner, Balanced inner ∧ ts = inner ++ [.punct closing]) last
    (by rintro ts rfl; exact List.cons_ne_nil _ _)
    (by rintro x y balanced rfl; exact ⟨x, balanced, rfl⟩)
  refine (punct (H := fun _ _ => False) opening).bindFirm (fun _ _ _ => rest) ?_ ?_
  · rintro ts ⟨inner, -, rfl⟩
    simp
  · rintro x y rfl ⟨inner, balanced, rfl⟩
    exact ⟨inner, balanced, rfl⟩

/-- Brackets, and what goes on after them. -/
theorem enclosedThen {H : γ → Token → Prop} {K : α → Token → Prop} {Q S : List Token → Prop}
    {R' : γ → δ → Prop} {f : α → Parse γ} {g : β → Parse δ} (opening closing : Punctuator)
    (inner : ReadsOn K Balanced R p q) (second : ∀ a b, R a b → ReadsOn H Q R' (f a) (g b))
    (concat : ∀ x y, Enclosed opening closing x → Q y → S (x ++ y)) :
    ReadsOn H S R' (do Grammar.punct opening; let a ← p; Grammar.punct closing; f a)
      (do Grammar.punct opening; let b ← q; Grammar.punct closing; g b) := by
  have whole := (enclosed (H := fun _ _ => True) opening closing inner).bind second
    (fun _ _ _ _ => trivial) concat
  simpa only [bind_assoc, pure_bind] using whole

/-- Items within brackets. -/
theorem bracketed {H : List α → Token → Prop} (opening closing : Punctuator) (starts : Token → Bool)
    (item : ReadsOn (fun _ _ => False) Filled R p q) :
    ReadsOn H (Enclosed opening closing) (List.Forall₂ R)
      (Grammar.bracketed opening closing starts p) (Grammar.bracketed opening closing starts q) :=
  enclosed opening closing <| item.many1 starts Filled.firm .nil (fun _ _ x y => x.1.append y)
    fun _ _ x y => x.1.append y

end ReadsOn

end GraphQLStatics.Grammar
