import GraphQLStatics.Document.Load
import GraphQLStatics.Proofs.ExecutableReading
import GraphQLStatics.Proofs.TypeSystemReading

/-!
# Reading definitions in a row

A definition of either kind is read alike before another one, unless the other
goes on with it, and it is refused by the grammar of the other kind.  So a
grammar reads definitions in a row if and only if all of them are of its kind.

## Main Definitions

* `Grammar.definition`: the reader of definitions of a kind
* `Definition.unplaced`
* `Grammar.Spares`: what may follow a definition
* `Piece`: a text that is a single definition

## Main Statements

* `Grammar.ReadsOn.definition`
* `Grammar.readAll_row`, `Grammar.readAll_error`: definitions in a row
-/

namespace GraphQLStatics

/-- The definition without positions. -/
def Definition.unplaced : Definition → Definition
  | .operation op => .operation op.unplaced
  | .fragment frag => .fragment frag.unplaced
  | .typeSystem definition => .typeSystem definition.unplaced

/-- Whether the definition could have contents in braces but has none. -/
def Definition.lacksBraces : Definition → Bool
  | .typeSystem definition => definition.lacksBraces
  | .operation _ | .fragment _ => false

/-- Whether the definition could go on with locations. -/
def Definition.lacksLocations : Definition → Bool
  | .typeSystem definition => definition.lacksLocations
  | .operation _ | .fragment _ => false

namespace Grammar

/-! ### Definitions of a kind -/

/-- Read a definition of a kind. -/
def definition : RunKind → Parse Definition
  | .executable => executableDefinition
  | .typeSystem => do return .typeSystem (← typeSystemDefinition)

section Map

variable {α β : Type} (f : α → β) (starts : Token → Bool) (item : Parse α)

theorem manyWithin_map (n : Nat) :
    manyWithin starts (do return f (← item)) n = do return (← manyWithin starts item n).map f := by
  induction n with
  | zero => rfl
  | succ n ih =>
      unfold manyWithin
      simp only [ih, bind_assoc, pure_bind]
      congr 1
      funext b
      cases b with
      | false => rfl
      | true => simp only [if_true, bind_assoc, pure_bind, List.map_cons]

theorem many1_map :
    many1 starts (do return f (← item)) = do return (← many1 starts item).map f := by
  have more : many starts (do return f (← item)) = do return (← many starts item).map f := by
    unfold many
    simp only [manyWithin_map, bind_assoc]
  unfold many1
  simp only [more, bind_assoc, pure_bind, List.map_cons]

/-- What is made of each item can be made of all of them at the end. -/
theorem readAll_map (lexed : Lexed) :
    readAll (do return f (← item)) lexed = (readAll item lexed).map (List.map f) := by
  have mapped : many1 (fun _ => true) (do return f (← item)) lexed.lexemes =
      (many1 (fun _ => true) item lexed.lexemes).map fun x => (x.1.map f, x.2) := by
    rw [many1_map]
    rfl
  unfold readAll
  rw [mapped]
  cases many1 (fun _ => true) item lexed.lexemes with
  | error fault => cases fault <;> rfl
  | ok result =>
      obtain ⟨items, rest⟩ := result
      cases rest with
      | nil => cases lexed.complete <;> rfl
      | cons ℓ rest => rfl

end Map

theorem readDefinitions_eq (kind : RunKind) (cs : List Char) :
    readDefinitions kind cs = readAll (definition kind) (lex cs) := by
  cases kind with
  | executable => rfl
  | typeSystem => exact (readAll_map _ _ _).symm

/-- What may follow a definition without going on with it. -/
def Spares (d : Definition) (t : Token) : Prop :=
  Opening t ∧ (d.lacksBraces = true → isPunct .openBrace t = false) ∧
    (d.lacksLocations = true → isName t = false)

/-- A definition is read alike before any other that does not go on with it. -/
theorem ReadsOn.definition (kind : RunKind) :
    ReadsOn Spares (Shape kind) (InvImage Eq Definition.unplaced) (Grammar.definition kind)
      (Grammar.definition kind) := by
  cases kind with
  | typeSystem =>
      exact typeSystemDefinition.returns (fun _ _ eq => congrArg Definition.typeSystem eq)
        fun _ _ => id
  | executable =>
      refine peek (fun token => ?_) fun _ shape => shape.firm
      split
      case h_1 =>
        exact shorthand.returns (fun _ _ eq => congrArg Definition.operation eq)
          fun _ _ _ => trivial
      case h_2 word =>
        cases OperationKind.ofKeyword? word with
        | some kind =>
            exact (operation kind).returns (fun _ _ eq => congrArg Definition.operation eq)
              fun _ _ _ => trivial
        | none =>
            exact fragment.returns (fun _ _ eq => congrArg Definition.fragment eq)
              fun _ _ _ => trivial
      case h_3 => exact fail

theorem mem_of_ofKeyword? {word : String} {kind : RunKind}
    (keyword : RunKind.ofKeyword? word = some kind) :
    word ∈ match kind with
      | .executable => ["fragment", "mutation", "query", "subscription"]
      | .typeSystem => ["directive", "enum", "extend", "input", "interface", "scalar", "schema",
          "type", "union"] := by
  unfold RunKind.ofKeyword? at keyword
  split at keyword
  · cases keyword; assumption
  · split at keyword
    · cases keyword; assumption
    · cases keyword

/-- A definition is refused by the grammar of the other kind. -/
theorem definition_error {kind other : RunKind} {ℓ : Lexeme}
    (begins : Survey.initial.begins? ℓ.token = some kind) (differ : kind ≠ other)
    (lexemes : List Lexeme) : ∃ fault, Grammar.definition other (ℓ :: lexemes) = .error fault := by
  obtain ⟨token, position, start, stop⟩ := ℓ
  change Survey.initial.begins? token = some kind at begins
  have named (word : String) (eq : token = .name word) : RunKind.ofKeyword? word = some kind := by
    rw [eq] at begins
    simpa [Survey.begins?, Survey.initial] using begins
  cases kind with
  | executable =>
      cases other with
      | executable => exact absurd rfl differ
      | typeSystem =>
          cases token with
          | name word =>
              have listed := mem_of_ofKeyword? (named word rfl)
              simp only [List.mem_cons, List.not_mem_nil, or_false] at listed
              obtain rfl | rfl | rfl | rfl := listed <;> exact ⟨_, rfl⟩
          | punct p =>
              cases p with
              | openBrace => exact ⟨_, rfl⟩
              | _ => cases begins
          | _ => cases begins
  | typeSystem =>
      cases other with
      | typeSystem => exact absurd rfl differ
      | executable =>
          cases token with
          | name word =>
              have listed := mem_of_ofKeyword? (named word rfl)
              simp only [List.mem_cons, List.not_mem_nil, or_false] at listed
              obtain rfl | rfl | rfl | rfl | rfl | rfl | rfl | rfl | rfl := listed <;>
                exact ⟨_, rfl⟩
          | string body => exact ⟨_, rfl⟩
          | blockString body => exact ⟨_, rfl⟩
          | punct p => cases p <;> cases begins
          | _ => cases begins

/-- A text that is a single item. -/
theorem item_of_readAll {α : Type} {item : Parse α} {lexed : Lexed} {a : α}
    (ok : readAll item lexed = .ok [a]) :
    item lexed.lexemes = .ok (a, []) ∧ lexed.complete = true := by
  unfold readAll at ok
  split at ok
  case h_1 items found =>
    split at ok
    case isFalse => cases ok
    case isTrue complete =>
      cases ok
      refine ⟨?_, complete⟩
      obtain ⟨first, middle, okItem, okMore⟩ := bind_eq_ok.mp found
      obtain ⟨more, rest, okMany, okReturn⟩ := bind_eq_ok.mp okMore
      cases okReturn
      cases middle with
      | nil => exact okItem
      | cons ℓ middle =>
          -- another lexeme would begin another item
          change manyWithin (fun _ => true) item (middle.length + 1) (ℓ :: middle) = _ at okMany
          obtain ⟨b, after, okNext, okAfter⟩ := bind_eq_ok.mp okMany
          cases okNext
          obtain ⟨second, last, -, okRest⟩ := bind_eq_ok.mp okAfter
          obtain ⟨others, last, -, okReturn⟩ := bind_eq_ok.mp okRest
          cases okReturn
  all_goals cases ok

end Grammar

/-! ### Definitions in a row -/

/-- A text that is a single definition of some kind. -/
structure Piece where
  kind : RunKind
  text : String
  definition : Definition
  reads : readDefinitions kind text.toList = .ok [definition]

namespace Piece

/-- The tokens of the text. -/
def tokens (p : Piece) : List Token :=
  GraphQLStatics.tokens (lex p.text.toList).lexemes

theorem read (p : Piece) :
    Grammar.definition p.kind (lex p.text.toList).lexemes = .ok (p.definition, []) ∧
      (lex p.text.toList).complete = true :=
  Grammar.item_of_readAll (Grammar.readDefinitions_eq p.kind _ ▸ p.reads)

theorem shape (p : Piece) : Shape p.kind p.tokens := by
  obtain ⟨used, eq, shape⟩ := (Grammar.ReadsOn.definition p.kind).spells p.read.1
  rw [List.append_nil] at eq
  rwa [tokens, eq]

/-- One definition may stand after the other without going on with it. -/
def Spares (p q : Piece) : Prop :=
  ∀ t ∈ q.tokens.head?, Grammar.Spares p.definition t

end Piece

namespace Grammar

theorem exists_of_flatMap_cons {p : Piece} {pieces : List Piece} {others : List Lexeme}
    (same : tokens others = (p :: pieces).flatMap Piece.tokens) :
    ∃ first rest, others = first ++ rest ∧ tokens first = p.tokens ∧
      tokens rest = pieces.flatMap Piece.tokens :=
  exists_of_tokens_append (by rw [same, List.flatMap_cons])

/-- What follows a definition is the next one, if there is any. -/
theorem admits_of_isChain {p : Piece} {pieces : List Piece} {rest extra : List Lexeme}
    (spares : List.IsChain Piece.Spares (p :: pieces))
    (same : tokens rest = pieces.flatMap Piece.tokens)
    (follows : ∀ q ∈ (p :: pieces).getLast?, Admits (Spares q.definition) extra) :
    Admits (Spares p.definition) (rest ++ extra) := by
  cases pieces with
  | nil =>
      cases List.map_eq_nil_iff.mp same
      exact follows p rfl
  | cons q pieces =>
      obtain ⟨first, rest, rfl, firstEq, -⟩ := exists_of_flatMap_cons same
      have next := (List.isChain_cons_cons.mp spares).1
      cases first with
      | nil => exact absurd firstEq.symm q.shape.firm
      | cons ℓ first =>
          intro ℓ' mem
          cases mem
          exact next ℓ.token (by rw [← firstEq]; rfl)

/-- What follows a row follows its tail. -/
theorem forall_getLast?_of_cons {p : Piece} {pieces : List Piece} {P : Piece → Prop}
    (follows : ∀ q ∈ (p :: pieces).getLast?, P q) : ∀ q ∈ pieces.getLast?, P q := by
  intro q last
  refine follows q ?_
  rw [Option.mem_def] at last ⊢
  rw [List.getLast?_cons, last]
  rfl

/-- A definition before others. -/
theorem definition_of_isChain {p : Piece} {pieces : List Piece} {first rest extra : List Lexeme}
    (spares : List.IsChain Piece.Spares (p :: pieces)) (firstEq : tokens first = p.tokens)
    (restEq : tokens rest = pieces.flatMap Piece.tokens)
    (follows : ∀ q ∈ (p :: pieces).getLast?, Admits (Spares q.definition) extra) :
    ∃ d, definition p.kind (first ++ (rest ++ extra)) = .ok (d, rest ++ extra) ∧
      d.unplaced = p.definition.unplaced := by
  obtain ⟨d, left, ok, same, empty⟩ := (ReadsOn.definition p.kind).again p.read.1 firstEq
    fun _ => admits_of_isChain spares restEq follows
  cases List.map_eq_nil_iff.mp empty
  exact ⟨d, ok, same.symm⟩

section Steps

variable {α : Type} {item : Parse α} {n : Nat} {ℓ : Lexeme} {lexemes : List Lexeme}

theorem manyWithin_succ_of_ok {a : α} {rest : List Lexeme}
    (ok : item (ℓ :: lexemes) = .ok (a, rest)) :
    manyWithin (fun _ => true) item (n + 1) (ℓ :: lexemes) =
      (manyWithin (fun _ => true) item n rest).map fun x => (a :: x.1, x.2) := by
  change (item (ℓ :: lexemes) >>= fun x => (manyWithin (fun _ => true) item n x.2 >>= fun y =>
    .ok (x.1 :: y.1, y.2))) = _
  rw [ok]
  rfl

theorem manyWithin_succ_of_error {fault : Fault} (error : item (ℓ :: lexemes) = .error fault) :
    manyWithin (fun _ => true) item (n + 1) (ℓ :: lexemes) = .error fault := by
  change (item (ℓ :: lexemes) >>= fun x => (manyWithin (fun _ => true) item n x.2 >>= fun y =>
    .ok (x.1 :: y.1, y.2))) = _
  rw [error]
  rfl

theorem many1_of_ok {a : α} {rest : List Lexeme} (ok : item lexemes = .ok (a, rest)) :
    many1 (fun _ => true) item lexemes =
      (manyWithin (fun _ => true) item rest.length rest).map fun x => (a :: x.1, x.2) := by
  change (item lexemes >>= fun x => (manyWithin (fun _ => true) item x.2.length x.2 >>= fun y =>
    .ok (x.1 :: y.1, y.2))) = _
  rw [ok]
  rfl

theorem many1_of_error {fault : Fault} (error : item lexemes = .error fault) :
    many1 (fun _ => true) item lexemes = .error fault := by
  change (item lexemes >>= fun x => (manyWithin (fun _ => true) item x.2.length x.2 >>= fun y =>
    .ok (x.1 :: y.1, y.2))) = _
  rw [error]
  rfl

end Steps

/-- Definitions of one kind in a row, and what is made of what follows them. -/
theorem manyWithin_row {kind : RunKind} {pieces : List Piece} (kinds : ∀ p ∈ pieces, p.kind = kind)
    (spares : List.IsChain Piece.Spares pieces) {others extra : List Lexeme}
    (same : tokens others = pieces.flatMap Piece.tokens)
    (follows : ∀ q ∈ pieces.getLast?, Admits (Spares q.definition) extra) (n : Nat) :
    ∃ ds : List Definition,
      manyWithin (fun _ => true) (definition kind) (n + pieces.length) (others ++ extra) =
        (manyWithin (fun _ => true) (definition kind) n extra).map (fun x => (ds ++ x.1, x.2)) ∧
      ds.map Definition.unplaced = pieces.map (·.definition.unplaced) := by
  induction pieces generalizing others with
  | nil =>
      cases List.map_eq_nil_iff.mp same
      refine ⟨[], ?_, rfl⟩
      rw [List.nil_append]
      cases manyWithin (fun _ => true) (definition kind) n extra <;> rfl
  | cons p pieces ih =>
      obtain ⟨first, rest, rfl, firstEq, restEq⟩ := exists_of_flatMap_cons same
      obtain ⟨d, ok, sameD⟩ := definition_of_isChain spares firstEq restEq follows
      cases kinds p List.mem_cons_self
      obtain ⟨ds, okMore, sameMore⟩ := ih (fun q mem => kinds q (List.mem_cons_of_mem p mem))
        spares.tail restEq (forall_getLast?_of_cons follows)
      refine ⟨d :: ds, ?_, by rw [List.map_cons, List.map_cons, sameD, sameMore]⟩
      cases first with
      | nil => exact absurd firstEq.symm p.shape.firm
      | cons ℓ first =>
          rw [List.cons_append] at ok
          rw [List.append_assoc, List.cons_append, List.length_cons, ← Nat.add_assoc,
            manyWithin_succ_of_ok ok, okMore]
          cases manyWithin (fun _ => true) (definition p.kind) n extra <;> rfl

/-- There are at least as many lexemes as definitions. -/
theorem length_le_of_flatMap {pieces : List Piece} {others : List Lexeme}
    (same : tokens others = pieces.flatMap Piece.tokens) : pieces.length ≤ others.length := by
  induction pieces generalizing others with
  | nil => exact Nat.zero_le _
  | cons p pieces ih =>
      obtain ⟨first, rest, rfl, firstEq, restEq⟩ := exists_of_flatMap_cons same
      cases first with
      | nil => exact absurd firstEq.symm p.shape.firm
      | cons ℓ first =>
          have := ih restEq
          simp only [List.length_cons, List.length_append]
          omega

/-- The same with at least one definition, and with as much fuel as is left. -/
theorem many1_row {kind : RunKind} {pieces : List Piece} (begun : pieces ≠ [])
    (kinds : ∀ p ∈ pieces, p.kind = kind) (spares : List.IsChain Piece.Spares pieces)
    {others : List Lexeme} (same : tokens others = pieces.flatMap Piece.tokens)
    (extra : List Lexeme) (follows : ∀ q ∈ pieces.getLast?, Admits (Spares q.definition) extra) :
    ∃ (ds : List Definition) (n : Nat), extra.length ≤ n ∧
      many1 (fun _ => true) (definition kind) (others ++ extra) =
        (manyWithin (fun _ => true) (definition kind) n extra).map (fun x => (ds ++ x.1, x.2)) ∧
      ds.map Definition.unplaced = pieces.map (·.definition.unplaced) := by
  cases pieces with
  | nil => exact absurd rfl begun
  | cons p pieces =>
      obtain ⟨first, rest, rfl, firstEq, restEq⟩ := exists_of_flatMap_cons same
      obtain ⟨d, ok, sameD⟩ := definition_of_isChain spares firstEq restEq follows
      cases kinds p List.mem_cons_self
      have enough := length_le_of_flatMap restEq
      obtain ⟨ds, okMore, sameMore⟩ := manyWithin_row
        (fun q mem => kinds q (List.mem_cons_of_mem p mem)) spares.tail restEq
        (forall_getLast?_of_cons follows) (rest.length - pieces.length + extra.length)
      refine ⟨d :: ds, rest.length - pieces.length + extra.length, Nat.le_add_left _ _, ?_,
        by rw [List.map_cons, List.map_cons, sameD, sameMore]⟩
      have fuel : (rest ++ extra).length =
          rest.length - pieces.length + extra.length + pieces.length := by
        rw [List.length_append]
        omega
      rw [List.append_assoc, many1_of_ok ok, fuel, okMore]
      cases manyWithin (fun _ => true) (definition p.kind)
        (rest.length - pieces.length + extra.length) extra <;> rfl

/-- Definitions of one kind in a row are read by the grammar of their kind. -/
theorem readAll_row {kind : RunKind} {pieces : List Piece} (begun : pieces ≠ [])
    (kinds : ∀ p ∈ pieces, p.kind = kind) (spares : List.IsChain Piece.Spares pieces)
    {lexed : Lexed} (complete : lexed.complete = true)
    (same : tokens lexed.lexemes = pieces.flatMap Piece.tokens) :
    ∃ ds, readAll (definition kind) lexed = .ok ds ∧
      ds.map Definition.unplaced = pieces.map (·.definition.unplaced) := by
  obtain ⟨ds, n, -, ok, sameAll⟩ := many1_row begun kinds spares same []
    fun _ _ _ mem => by cases mem
  have ends : manyWithin (fun _ => true) (definition kind) n [] = .ok ([], []) := by
    cases n <;> rfl
  rw [ends, List.append_nil] at ok
  refine ⟨ds, ?_, sameAll⟩
  unfold readAll
  rw [ok]
  simp [Except.map, complete]

/-- A definition of another kind among them is refused. -/
theorem readAll_error {kind : RunKind} {pieces : List Piece}
    (spares : List.IsChain Piece.Spares pieces) {p : Piece} (mem : p ∈ pieces)
    (other : p.kind ≠ kind) {lexed : Lexed}
    (same : tokens lexed.lexemes = pieces.flatMap Piece.tokens) :
    ∃ position, readAll (definition kind) lexed = .error position := by
  -- the first definition of another kind is where reading stops
  obtain ⟨q, found⟩ : ∃ q, pieces.find? (·.kind ≠ kind) = some q :=
    Option.isSome_iff_exists.mp (List.find?_isSome.mpr ⟨p, mem, decide_eq_true other⟩)
  obtain ⟨differs, row, later, rfl, kinds⟩ := List.find?_eq_some_iff_append.mp found
  simp only [ne_eq, decide_not, Bool.not_eq_true', decide_eq_false_iff_not, Bool.not_not,
    decide_eq_true_eq] at differs kinds
  obtain ⟨rowSpares, -, next⟩ := List.isChain_append.mp spares
  rw [List.flatMap_append] at same
  obtain ⟨others, extra, eq, rowEq, extraEq⟩ := exists_of_tokens_append same
  obtain ⟨first, rest, rfl, firstEq, -⟩ := exists_of_flatMap_cons extraEq
  cases first with
  | nil => exact absurd firstEq.symm q.shape.firm
  | cons ℓ first =>
      have head : q.tokens.head? = some ℓ.token := by rw [← firstEq]; rfl
      obtain ⟨token, opens, begins⟩ := q.shape.opens
      rw [head] at opens
      cases opens
      obtain ⟨fault, refused⟩ := definition_error begins differs (first ++ rest)
      have stops : ∃ fault, many1 (fun _ => true) (definition kind) lexed.lexemes =
          .error fault := by
        rw [eq]
        by_cases empty : row = []
        · cases empty
          cases List.map_eq_nil_iff.mp rowEq
          exact ⟨fault, many1_of_error refused⟩
        · obtain ⟨ds, n, enough, ok, -⟩ := many1_row empty kinds rowSpares rowEq
            (ℓ :: first ++ rest) fun r last ℓ' head' => by
              cases head'
              exact next r last q rfl ℓ.token head
          obtain ⟨n, rfl⟩ := Nat.exists_eq_add_of_le' (Nat.le_trans (Nat.le_add_left 1 _) enough)
          rw [List.cons_append, manyWithin_succ_of_error refused] at ok
          exact ⟨fault, ok⟩
      obtain ⟨fault, stops⟩ := stops
      unfold readAll
      rw [stops]
      cases fault with
      | lexeme position => exact ⟨position, rfl⟩
      | ending => exact ⟨lexed.stop, rfl⟩

end Grammar

end GraphQLStatics
