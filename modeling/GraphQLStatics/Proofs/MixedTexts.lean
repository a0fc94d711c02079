import GraphQLStatics.Proofs.DefinitionReading
import GraphQLStatics.Proofs.JoinedTexts

/-!
# Texts that mix both kinds of definition

Definitions that can be read one by one can be loaded from one text, in which
they stand in a row.  Where an operation or a fragment follows a definition of
the type system, the splitter has to be able to see it: a brace is only seen
after a closing brace, and a keyword is not seen after another one.

## Main Definitions

* `Token.setsOff`: what can be seen to begin after a token
* `Piece.Joins`: one definition can be loaded after another

## Main Statements

* `readMixed_ok`: the runs of a mixture
* `load_joined`: texts joined by line feeds
-/

namespace GraphQLStatics

open Text Grammar

/-! ### Neighbours -/

/-- Whether an operation or a fragment that begins with `first` can be seen after a
definition of the type system that ends with `last`. -/
def Token.setsOff (last first : Token) : Bool :=
  match last with
  | .punct .closeBrace => true
  | .punct .closeParen => first ≠ .punct .openBrace
  | .name word =>
    first ≠ .punct .openBrace && (RunKind.ofKeyword? word).isNone && word ≠ "implements" &&
      word ≠ "on"
  | _ => false

namespace Piece

/-- One definition can be loaded after another. -/
structure Joins (p q : Piece) : Prop where
  apart : p.kind = .typeSystem → q.kind = .executable →
    ∀ last ∈ p.tokens.getLast?, ∀ first ∈ q.tokens.head?, last.setsOff first = true
  closed : p.definition.lacksLocations = true → ∀ first ∈ q.tokens.head?, isName first = false

/-- What may begin after the last token. -/
def outlook (p : Piece) : Outlook :=
  (p.tokens.getLast?.map Outlook.after).getD .top

theorem exists_head (p : Piece) :
    ∃ first, p.tokens.head? = some first ∧ Survey.initial.begins? first = some p.kind :=
  p.shape.opens

theorem exists_getLast (p : Piece) : ∃ last, p.tokens.getLast? = some last :=
  Option.isSome_iff_exists.mp (List.getLast?_isSome.mpr p.shape.firm)

theorem Joins.spares {p q : Piece} (joins : p.Joins q)
    (braces : p.definition.lacksBraces = false) : p.Spares q := by
  obtain ⟨first, head, begins⟩ := q.exists_head
  intro t mem
  have same : first = t := Option.some.inj (head.symm.trans mem)
  subst same
  refine ⟨⟨q.kind, begins⟩, fun lacks => ?_, fun lacks => joins.closed lacks first head⟩
  rw [braces] at lacks
  cases lacks

end Piece

namespace Survey

/-- What begins a definition somewhere begins one of that kind at the start. -/
theorem begins?_initial {v : Survey} {token : Token} {kind : RunKind}
    (begins : v.begins? token = some kind) : initial.begins? token = some kind := by
  have outside := depth_of_begins begins
  unfold begins? at begins
  rw [if_pos outside] at begins
  cases token with
  | name word =>
      dsimp only at begins
      split at begins
      · simpa [begins?, initial] using begins
      · cases begins
  | string body =>
      dsimp only at begins
      split at begins
      · cases begins
      · exact begins
  | blockString body =>
      dsimp only at begins
      split at begins
      · cases begins
      · exact begins
  | punct p =>
      cases p with
      | openBrace =>
          dsimp only at begins
          split at begins
          · exact begins
          · cases begins
      | _ => cases begins
  | _ => cases begins

theorem begins?_top {v : Survey} (depth : v.depth = 0) (top : v.outlook = .top) (token : Token) :
    v.begins? token = initial.begins? token := by
  obtain ⟨_, _, starts⟩ := v
  cases depth
  cases top
  rfl

/-- A brace apart, operations and fragments are seen wherever keywords are. -/
theorem begins?_free {v : Survey} (depth : v.depth = 0) (free : v.outlook = .free) {token : Token}
    (begins : initial.begins? token = some .executable) (other : token ≠ .punct .openBrace) :
    v.begins? token = some .executable := by
  obtain ⟨_, _, starts⟩ := v
  cases depth
  cases free
  cases token with
  | name word => simpa [begins?, initial] using begins
  | punct p =>
      cases p with
      | openBrace => exact absurd rfl other
      | _ => cases begins
  | _ => cases begins

theorem outlook_readAll (v : Survey) (lexemes : List Lexeme) :
    (v.readAll lexemes).outlook =
      ((tokens lexemes).getLast?.map Outlook.after).getD v.outlook := by
  induction lexemes using List.reverseRecOn with
  | nil => rfl
  | append_singleton lexemes ℓ _ =>
      rw [readAll_append, tokens, List.map_append]
      simp only [List.map_cons, List.map_nil, List.getLast?_concat]
      rfl

end Survey

namespace Piece

/-- A definition is seen to begin where it does, if at all, and what may begin
after it depends on its last token. -/
theorem readAll (p : Piece) {ℓ : Lexeme} {later : List Lexeme}
    (same : GraphQLStatics.tokens (ℓ :: later) = p.tokens) (outlook : Outlook)
    (starts : List (Nat × RunKind)) :
    (⟨0, outlook, starts⟩ : Survey).readAll (ℓ :: later) =
      ⟨0, p.outlook, ((⟨0, outlook, starts⟩ : Survey).read ℓ.token ℓ.start).starts⟩ := by
  obtain ⟨outlook', -, read⟩ := p.shape.readAll same outlook starts
  have last := Survey.outlook_readAll ⟨0, outlook, starts⟩ (ℓ :: later)
  rw [read, same] at last
  obtain ⟨token, eq⟩ := p.exists_getLast
  rw [eq] at last
  rw [read, Piece.outlook, eq]
  exact congrArg (fun o => Survey.mk 0 o _) last

/-- After an operation or a fragment anything can be seen. -/
theorem outlook_eq_top {p : Piece} (executable : p.kind = .executable) : p.outlook = .top := by
  cases lexemes : (lex p.text.toList).lexemes with
  | nil => exact absurd (congrArg GraphQLStatics.tokens lexemes) p.shape.firm
  | cons ℓ later =>
      have same : GraphQLStatics.tokens (ℓ :: later) = p.tokens := by rw [← lexemes]; rfl
      obtain ⟨outlook, top, read⟩ := p.shape.readAll same .top []
      rw [p.readAll same] at read
      exact (congrArg Survey.outlook read).trans (top executable)

/-- Where the kind changes, a definition is seen. -/
theorem Joins.begins {p q : Piece} (joins : p.Joins q) (differ : p.kind ≠ q.kind)
    {first : Token} (head : q.tokens.head? = some first) (starts : List (Nat × RunKind)) :
    (⟨0, p.outlook, starts⟩ : Survey).begins? first = some q.kind := by
  obtain ⟨_, head', begins⟩ := q.exists_head
  cases Option.some.inj (head.symm.trans head')
  cases kind : p.kind with
  | executable => rw [Survey.begins?_top rfl (outlook_eq_top kind), begins]
  | typeSystem =>
      have executable : q.kind = .executable := by
        cases other : q.kind with
        | executable => rfl
        | typeSystem => exact absurd (kind.trans other.symm) differ
      obtain ⟨last, ends⟩ := p.exists_getLast
      have apart := joins.apart kind executable last ends first head
      have outlook : p.outlook = .after last := by rw [Piece.outlook, ends]; rfl
      rw [executable] at begins ⊢
      unfold Token.setsOff at apart
      split at apart
      case h_1 => rw [Survey.begins?_top rfl outlook, begins]
      case h_2 =>
        exact Survey.begins?_free rfl outlook begins (by simpa using apart)
      case h_3 word =>
        simp only [Bool.and_eq_true, decide_eq_true_eq] at apart
        obtain ⟨⟨⟨brace, keyword⟩, implements⟩, on⟩ := apart
        refine Survey.begins?_free rfl (outlook.trans ?_) begins brace
        simp [Outlook.after, Splitter.Last.mayPrecede, keyword, implements, on]
      case h_4 => cases apart

end Piece

/-! ### Pieces in place -/

/-- A definition as it stands in a text. -/
structure Placed where
  piece : Piece
  lexemes : List Lexeme
  same : tokens lexemes = piece.tokens

/-- Lexemes that are those of pieces can be told apart. -/
theorem exists_placed {pieces : List Piece} {lexemes : List Lexeme}
    (same : tokens lexemes = pieces.flatMap Piece.tokens) :
    ∃ placed : List Placed, placed.map Placed.piece = pieces ∧
      lexemes = placed.flatMap Placed.lexemes := by
  induction pieces generalizing lexemes with
  | nil =>
      cases List.map_eq_nil_iff.mp same
      exact ⟨[], rfl, rfl⟩
  | cons p pieces ih =>
      obtain ⟨first, rest, rfl, firstEq, restEq⟩ := exists_of_flatMap_cons same
      obtain ⟨placed, rfl, rfl⟩ := ih restEq
      exact ⟨⟨p, first, firstEq⟩ :: placed, rfl, rfl⟩

namespace Placed

theorem tokens_flatMap (placed : List Placed) :
    tokens (placed.flatMap lexemes) = (placed.map piece).flatMap Piece.tokens := by
  induction placed with
  | nil => rfl
  | cons q placed ih =>
      rw [List.flatMap_cons, tokens, List.map_append, List.map_cons, List.flatMap_cons, ← ih,
        ← q.same]

/-- Where the definition begins. -/
def start (q : Placed) : Nat :=
  (q.lexemes.head?.map Lexeme.start).getD 0

theorem exists_cons (q : Placed) : ∃ ℓ later, q.lexemes = ℓ :: later ∧ q.start = ℓ.start ∧
    q.piece.tokens.head? = some ℓ.token := by
  cases lexemes : q.lexemes with
  | nil => exact absurd (by rw [← q.same, lexemes]; rfl) q.piece.shape.firm
  | cons ℓ later =>
      refine ⟨ℓ, later, rfl, ?_, ?_⟩
      · rw [start, lexemes]; rfl
      · rw [← q.same, lexemes]; rfl

/-- The kind of definition that is seen, with an outlook before it. -/
def seen? (outlook : Outlook) (q : Placed) : Option RunKind :=
  q.piece.tokens.head?.bind (⟨0, outlook, []⟩ : Survey).begins?

/-- Where definitions are seen to begin. -/
def seen (outlook : Outlook) : List Placed → List (Nat × RunKind)
  | [] => []
  | q :: rest => ((q.seen? outlook).map (q.start, ·)).toList ++ seen q.piece.outlook rest

/-- A survey of definitions in a row. -/
theorem starts_readAll (placed : List Placed) (outlook : Outlook)
    (starts : List (Nat × RunKind)) :
    ((⟨0, outlook, starts⟩ : Survey).readAll (placed.flatMap lexemes)).starts.reverse =
      starts.reverse ++ seen outlook placed := by
  induction placed generalizing outlook starts with
  | nil => exact (List.append_nil _).symm
  | cons q placed ih =>
      obtain ⟨ℓ, later, eq, start, head⟩ := q.exists_cons
      rw [List.flatMap_cons, eq, Survey.readAll_append, q.piece.readAll (eq ▸ q.same), ih, seen,
        seen?, head, start, Option.bind_some]
      change ((Option.map (ℓ.start, ·) ((⟨0, outlook, []⟩ : Survey).begins? ℓ.token)).toList ++
        starts).reverse ++ _ = _
      cases (⟨0, outlook, []⟩ : Survey).begins? ℓ.token with
      | none => rfl
      | some kind => simp

/-- A definition that is seen is seen to be what it is. -/
theorem kind_of_seen? {outlook : Outlook} {q : Placed} {kind : RunKind}
    (seen : q.seen? outlook = some kind) : kind = q.piece.kind := by
  obtain ⟨first, head, begins⟩ := q.piece.exists_head
  rw [seen?, head] at seen
  exact Option.some.inj ((Survey.begins?_initial seen).symm.trans begins)

/-- Where the kind changes, a definition is seen. -/
theorem seen?_of_joins {p : Piece} {q : Placed} (joins : p.Joins q.piece)
    (differ : p.kind ≠ q.piece.kind) : q.seen? p.outlook = some q.piece.kind := by
  obtain ⟨first, head, -⟩ := q.piece.exists_head
  rw [seen?, head]
  exact joins.begins differ head []

end Placed

/-! ### Runs of definitions -/

theorem runsFrom_ne_nil (total start : Nat) (kind : RunKind) (rest : List (Nat × RunKind)) :
    runsFrom total start kind rest ≠ [] := by
  induction rest generalizing start kind with
  | nil => exact List.cons_ne_nil _ _
  | cons next rest ih =>
      unfold runsFrom
      split
      · exact ih start kind
      · exact List.cons_ne_nil _ _

/-- A definition belongs to the run of the one before it, or it begins another. -/
theorem runsFrom_seen_cons {p : Piece} {q : Placed} (joins : p.Joins q.piece)
    (rest : List Placed) (total start : Nat) :
    runsFrom total start p.kind (Placed.seen p.outlook (q :: rest)) =
      if q.piece.kind = p.kind then
        runsFrom total start p.kind (Placed.seen q.piece.outlook rest)
      else
        ⟨p.kind, start, q.start⟩ ::
          runsFrom total q.start q.piece.kind (Placed.seen q.piece.outlook rest) := by
  cases seen : q.seen? p.outlook with
  | none =>
      -- only a definition of the same kind can go unseen
      have same : q.piece.kind = p.kind := by
        by_contra differ
        rw [Placed.seen?_of_joins joins fun eq => differ eq.symm] at seen
        cases seen
      rw [if_pos same, Placed.seen, seen]
      rfl
  | some kind =>
      cases Placed.kind_of_seen? seen
      rw [Placed.seen, seen]
      rfl

/-- Where another kind of definition follows, another run does. -/
theorem two_le_length_runsFrom {p : Placed} {rest : List Placed} (total start : Nat)
    (joins : List.IsChain Piece.Joins ((p :: rest).map Placed.piece))
    (other : ∃ q ∈ rest, q.piece.kind ≠ p.piece.kind) :
    2 ≤ (runsFrom total start p.piece.kind (Placed.seen p.piece.outlook rest)).length := by
  induction rest generalizing p with
  | nil =>
      obtain ⟨q, mem, -⟩ := other
      cases mem
  | cons q rest ih =>
      obtain ⟨next, joinsRest⟩ := List.isChain_cons_cons.mp joins
      rw [runsFrom_seen_cons next]
      split
      case isTrue same =>
        rw [← same] at other ⊢
        refine ih joinsRest ?_
        obtain ⟨later, mem, differs⟩ := other
        obtain rfl | mem := List.mem_cons.mp mem
        · exact absurd rfl differs
        · exact ⟨later, mem, differs⟩
      case isFalse =>
        exact Nat.succ_le_succ (List.length_pos_iff.mpr (runsFrom_ne_nil _ _ _ _))

theorem Piece.balanced_flatMap (pieces : List Piece) : Balanced (pieces.flatMap tokens) := by
  induction pieces with
  | nil => exact .nil
  | cons p pieces ih => exact p.shape.balanced.append ih

section Runs

variable {cs : List Char} (complete : (lex cs).complete = true)

include complete

/-- A run is read if it holds definitions of its kind. -/
theorem readRun_ok {run : Run} (whole : run.Whole cs) {group : List Placed} (begun : group ≠ [])
    (kinds : ∀ q ∈ group, q.piece.kind = run.kind)
    (spares : List.IsChain Piece.Spares (group.map Placed.piece))
    (held : (lex cs).lexemes.filter run.holds = group.flatMap Placed.lexemes)
    (file : Option String) :
    ∃ ds, Document.readRun file cs run = .ok ds ∧
      ds.map Definition.unplaced = group.map (·.piece.definition.unplaced) := by
  obtain ⟨read, alike⟩ := lex_source drift_any complete whole trivial
  rw [held] at alike
  have same : tokens (lex (run.source cs)).lexemes =
      (group.map Placed.piece).flatMap Piece.tokens := by
    rw [← tokens_eq_of_alike alike, Placed.tokens_flatMap]
  have kindsAll : ∀ p ∈ group.map Placed.piece, p.kind = run.kind := by simpa using kinds
  obtain ⟨ds, ok, sameAll⟩ := readAll_row (by simpa using begun) kindsAll spares read same
  refine ⟨ds, ?_, by rw [sameAll, List.map_map]; rfl⟩
  rw [Document.readRun, readDefinitions_eq, ok]
  rfl

/-- The runs of definitions in a row, of which some are behind and `group` is the
part of the current run before `p`. -/
theorem mapM_readRun_ok (file : Option String) {before : List Lexeme} {group rest : List Placed}
    {p : Placed} {start : Nat}
    (split : (lex cs).lexemes = before ++
      ((group ++ [p]).flatMap Placed.lexemes ++ rest.flatMap Placed.lexemes))
    (kinds : ∀ q ∈ group ++ [p], q.piece.kind = p.piece.kind)
    (spares : List.IsChain Piece.Spares ((group ++ p :: rest).map Placed.piece))
    (joins : List.IsChain Piece.Joins ((p :: rest).map Placed.piece))
    (begins : (start = 0 ∧ before = []) ∨
      ∃ ℓ ∈ ((group ++ [p]).flatMap Placed.lexemes).head?, start = ℓ.start)
    (within : ∀ run ∈ runsFrom (byteLength cs) start p.piece.kind
      (Placed.seen p.piece.outlook rest), run.Whole cs) :
    ∃ dss, (runsFrom (byteLength cs) start p.piece.kind
        (Placed.seen p.piece.outlook rest)).mapM (Document.readRun file cs) = .ok dss ∧
      dss.flatten.map Definition.unplaced =
        (group ++ p :: rest).map (·.piece.definition.unplaced) := by
  induction rest generalizing before group p start with
  | nil =>
      have held := filter_holds complete split ⟨p.piece.kind, start, byteLength cs⟩ begins
        (.inl ⟨rfl, rfl⟩)
      obtain ⟨ds, ok, same⟩ := readRun_ok complete (within _ List.mem_cons_self) (by simp) kinds
        spares held file
      refine ⟨[ds], ?_, by rw [List.flatten_singleton, same]⟩
      change List.mapM _ [_] = _
      rw [List.mapM_cons, ok]
      rfl
  | cons q rest ih =>
      obtain ⟨next, joinsRest⟩ := List.isChain_cons_cons.mp joins
      have regrouped : group ++ p :: q :: rest = group ++ [p] ++ q :: rest := by simp
      rw [regrouped] at spares ⊢
      rw [runsFrom_seen_cons next] at within ⊢
      split at within
      case isTrue same =>
        -- the run goes on, and `p` joins what is behind in it
        rw [if_pos same]
        rw [← same] at within kinds ⊢
        have kindsMore : ∀ r ∈ group ++ [p] ++ [q], r.piece.kind = q.piece.kind := by
          intro r mem
          obtain mem | mem := List.mem_append.mp mem
          · exact kinds r mem
          · cases List.mem_singleton.mp mem
            rfl
        refine ih (by rw [split]; simp) kindsMore spares joinsRest (begins.imp_right ?_) within
        rintro ⟨ℓ, head, eq⟩
        rw [List.flatMap_append]
        exact ⟨ℓ, List.mem_head?_append_of_mem_head? head, eq⟩
      case isFalse differ =>
        -- the run ends before `q`, which begins the next
        rw [if_neg differ]
        rw [List.map_append] at spares
        obtain ⟨sparesFirst, sparesRest, -⟩ := List.isChain_append.mp spares
        obtain ⟨ℓ, later, lexemes, startEq, -⟩ := q.exists_cons
        have nextHead : ∃ ℓ ∈ ((q :: rest).flatMap Placed.lexemes).head?, q.start = ℓ.start :=
          ⟨ℓ, by rw [List.flatMap_cons, lexemes]; rfl, startEq⟩
        have held := filter_holds complete split ⟨p.piece.kind, start, q.start⟩ begins
          (.inr nextHead)
        obtain ⟨ds, ok, sameFirst⟩ := readRun_ok complete (within _ List.mem_cons_self) (by simp)
          kinds sparesFirst held file
        have splitRest : (lex cs).lexemes = before ++ (group ++ [p]).flatMap Placed.lexemes ++
            (([] ++ [q]).flatMap Placed.lexemes ++ rest.flatMap Placed.lexemes) := by
          rw [split]
          simp
        obtain ⟨dss, okRest, sameRest⟩ := ih splitRest (by simp) sparesRest joinsRest
          (.inr ⟨ℓ, by simp [lexemes], startEq⟩)
          fun run mem => within run (List.mem_cons_of_mem _ mem)
        refine ⟨ds :: dss, ?_, ?_⟩
        · rw [List.mapM_cons, ok, okRest]
          rfl
        · rw [List.flatten_cons, List.map_append, sameFirst, sameRest, ← List.map_append,
            List.nil_append]

omit complete in
/-- The runs of a text that consists of definitions. -/
theorem runsByTokens_eq {p : Placed} {rest : List Placed}
    (split : (lex cs).lexemes = (p :: rest).flatMap Placed.lexemes) :
    runsByTokens cs =
      runsFrom (byteLength cs) 0 p.piece.kind (Placed.seen p.piece.outlook rest) := by
  obtain ⟨first, head, begins⟩ := p.piece.exists_head
  have starts := Placed.starts_readAll (p :: rest) .top []
  have seen : p.seen? .top = some p.piece.kind := by
    rw [Placed.seen?, head]
    exact begins
  rw [Placed.seen, seen] at starts
  rw [runsByTokens, split]
  exact congrArg (runsOfStarts (byteLength cs)) starts

/-- The runs of definitions in a row can be read, if they are found. -/
theorem readMixed_ok (file : Option String) (told : runs cs = runsByTokens cs)
    {pieces : List Piece} (begun : pieces ≠ [])
    (same : tokens (lex cs).lexemes = pieces.flatMap Piece.tokens)
    (spares : List.IsChain Piece.Spares pieces) (joins : List.IsChain Piece.Joins pieces) :
    ∃ ds, Document.readMixed file cs (runs cs) = .ok ds ∧
      ds.map Definition.unplaced = pieces.map (·.definition.unplaced) := by
  obtain ⟨placed, rfl, split⟩ := exists_placed same
  cases placed with
  | nil => exact absurd rfl begun
  | cons p rest =>
      have all := runsByTokens_eq split
      have brackets : nested 0 (lex cs).lexemes = true := by
        have nested := (Piece.balanced_flatMap _).nested same 0 []
        rwa [List.append_nil] at nested
      have begins : (0 = 0 ∧ ([] : List Lexeme) = []) ∨
          ∃ ℓ ∈ (([] ++ [p]).flatMap Placed.lexemes).head?, 0 = ℓ.start := .inl ⟨rfl, rfl⟩
      obtain ⟨dss, ok, sameAll⟩ := mapM_readRun_ok complete file (by rw [split]; simp) (by simp)
        spares joins begins fun run mem => whole_of_mem_runsByTokens complete brackets (all ▸ mem)
      refine ⟨dss.flatten, ?_, by rw [sameAll, List.map_map]; rfl⟩
      rw [Document.readMixed, told, all, ok]
      rfl

omit complete in
/-- A text with definitions of both kinds in a row is a mixture. -/
theorem two_le_length_runsByTokens {pieces : List Piece}
    (same : tokens (lex cs).lexemes = pieces.flatMap Piece.tokens)
    (joins : List.IsChain Piece.Joins pieces) {p q : Piece} (memP : p ∈ pieces)
    (memQ : q ∈ pieces) (differ : p.kind ≠ q.kind) : 2 ≤ (runsByTokens cs).length := by
  obtain ⟨placed, rfl, split⟩ := exists_placed same
  cases placed with
  | nil => cases memP
  | cons r rest =>
      rw [runsByTokens_eq split]
      refine two_le_length_runsFrom _ _ joins ?_
      -- one of the two is not of the kind of the first
      by_contra none
      have uniform : ∀ x ∈ (r :: rest).map Placed.piece, x.kind = r.piece.kind := by
        intro x mem
        obtain rfl | mem := List.mem_cons.mp mem
        · rfl
        · obtain ⟨y, memY, rfl⟩ := List.mem_map.mp mem
          by_contra other
          exact none ⟨y, memY, other⟩
      exact differ ((uniform p memP).trans (uniform q memQ).symm)

end Runs

/-! ### Joined texts -/

/-- Definitions in a row are read, whether or not they are of one kind. -/
theorem readText_ok {cs : List Char} (complete : (lex cs).complete = true) {pieces : List Piece}
    (begun : pieces ≠ []) (tokensEq : tokens (lex cs).lexemes = pieces.flatMap Piece.tokens)
    (spares : List.IsChain Piece.Spares pieces) (joins : List.IsChain Piece.Joins pieces)
    (told : ∀ p ∈ pieces, ∀ q ∈ pieces, p.kind ≠ q.kind → runs cs = runsByTokens cs)
    (file : Option String) :
    ∃ ds, Document.readText file cs = .ok ds ∧
      ds.map Definition.unplaced = pieces.map (·.definition.unplaced) := by
  by_cases executable : ∀ p ∈ pieces, p.kind = .executable
  · obtain ⟨ds, ok, same⟩ := readAll_row begun executable spares complete tokensEq
    refine ⟨ds, ?_, same⟩
    rw [Document.readText, readDefinitions_eq, ok]
  · obtain ⟨p, memP, notExecutable⟩ := not_forall₂.mp executable
    obtain ⟨fault, refused⟩ := readAll_error spares memP notExecutable tokensEq
    by_cases typeSystem : ∀ p ∈ pieces, p.kind = .typeSystem
    · obtain ⟨ds, ok, same⟩ := readAll_row begun typeSystem spares complete tokensEq
      refine ⟨ds, ?_, same⟩
      rw [Document.readText, readDefinitions_eq, refused, readDefinitions_eq, ok]
    · obtain ⟨q, memQ, notTypeSystem⟩ := not_forall₂.mp typeSystem
      obtain ⟨fault', refused'⟩ := readAll_error spares memQ notTypeSystem tokensEq
      have differ : p.kind ≠ q.kind := by
        intro same
        cases kind : p.kind with
        | executable => exact notExecutable kind
        | typeSystem => exact notTypeSystem (same.symm.trans kind)
      have told := told p memP q memQ differ
      have mixture := two_le_length_runsByTokens tokensEq joins memP memQ differ
      obtain ⟨ds, ok, same⟩ := readMixed_ok complete file told begun tokensEq spares joins
      refine ⟨ds, ?_, same⟩
      rw [Document.readText, readDefinitions_eq, refused, readDefinitions_eq, refused']
      dsimp only
      rw [if_neg (Nat.not_lt.mpr (told ▸ mixture)), ok]

/-- Where both kinds of definition occur and no string holds a carriage return, the
tokens hold none. -/
theorem holdsReturn_of_mixture {lexemes : List Lexeme} {pieces : List Piece}
    (tokensEq : tokens lexemes = pieces.flatMap Piece.tokens)
    (plain : ∀ p ∈ pieces, ∀ q ∈ pieces, p.kind ≠ q.kind →
      ∀ t ∈ p.tokens, t.holdsReturn = false)
    {p q : Piece} (memP : p ∈ pieces) (memQ : q ∈ pieces) (differ : p.kind ≠ q.kind) :
    ∀ ℓ ∈ lexemes, ℓ.token.holdsReturn = false := by
  intro ℓ mem
  have found : ℓ.token ∈ pieces.flatMap Piece.tokens := tokensEq ▸ List.mem_map_of_mem mem
  obtain ⟨r, memR, mem⟩ := List.mem_flatMap.mp found
  by_cases same : r.kind = p.kind
  · exact plain r memR q memQ (same ▸ differ) _ mem
  · exact plain r memR p memP same _ mem

/-- Definitions joined by line feeds are loaded in their order, each as it is by
itself apart from its position, provided that the definitions of the type system
have their contents in braces, that neighbours can be told apart, and that no
string holds a carriage return where both kinds occur, unless the runs are found
nevertheless.  Nothing is said about descriptions, about directives within the type
system and about interfaces of interfaces, since definitions do not keep them. -/
theorem load_joined (doc : Document) {pieces : List Piece} (begun : pieces ≠ [])
    (braces : ∀ p ∈ pieces, p.definition.lacksBraces = false)
    (joins : List.IsChain Piece.Joins pieces)
    (told : (∀ p ∈ pieces, ∀ q ∈ pieces, p.kind ≠ q.kind →
        ∀ t ∈ p.tokens, t.holdsReturn = false) ∨
      runs ("\n".intercalate (pieces.map Piece.text)).toList =
        runsByTokens ("\n".intercalate (pieces.map Piece.text)).toList) :
    ∃ ds, doc.load ("\n".intercalate (pieces.map Piece.text)) = .ok (doc.append ds) ∧
      ds.map Definition.unplaced = pieces.map (·.definition.unplaced) := by
  have chars : ("\n".intercalate (pieces.map Piece.text)).toList =
      ['\n'].intercalate (pieces.map fun p => p.text.toList) := by
    rw [String.toList_intercalate, List.map_map]
    rfl
  have readable : ∀ cs ∈ pieces.map (fun p => p.text.toList), (lex cs).complete = true := by
    simpa using fun p _ => p.read.2
  obtain ⟨complete, tokensEq⟩ := lex_joined readable (by simpa using fun p _ => p.shape.balanced)
  rw [List.flatMap_map] at tokensEq
  have spares : List.IsChain Piece.Spares pieces :=
    joins.imp_of_mem_imp fun p q mem _ joins => joins.spares (braces p mem)
  rw [← chars] at complete tokensEq
  have agree : ∀ p ∈ pieces, ∀ q ∈ pieces, p.kind ≠ q.kind →
      runs ("\n".intercalate (pieces.map Piece.text)).toList =
        runsByTokens ("\n".intercalate (pieces.map Piece.text)).toList := by
    intro p memP q memQ differ
    obtain plain | agree := told
    · exact runs_eq_runsByTokens complete
        (holdsReturn_of_mixture tokensEq plain memP memQ differ)
    · exact agree
  obtain ⟨ds, ok, same⟩ := readText_ok complete begun tokensEq spares joins agree doc.file
  refine ⟨ds, ?_, same⟩
  rw [Document.load, ok]
  rfl

instance (p q : Piece) : Decidable (p.Joins q) :=
  decidable_of_iff
    ((p.kind = .typeSystem → q.kind = .executable →
      ∀ last ∈ p.tokens.getLast?, ∀ first ∈ q.tokens.head?, last.setsOff first = true) ∧
      (p.definition.lacksLocations = true → ∀ first ∈ q.tokens.head?, isName first = false))
    ⟨fun both => ⟨both.1, both.2⟩, fun joins => ⟨joins.apart, joins.closed⟩⟩

/-- The text as a piece, if it is a single definition of the kind. -/
def Piece.ofText? (kind : RunKind) (text : String) : Option Piece :=
  match reads : readDefinitions kind text.toList with
  | .ok [definition] => some { kind, text, definition, reads }
  | _ => none

/-- Texts as pieces, as far as they are single definitions. -/
def Piece.ofTexts (texts : List (RunKind × String)) : List Piece :=
  texts.filterMap fun (kind, text) => ofText? kind text

/-- Definitions with keywords for names, with braces in comments and descriptions,
and with a carriage return in the last of the descriptions. -/
def keywordsForNames : List Piece :=
  Piece.ofTexts
    [(.typeSystem, "\"\x7b\" type type \x7b query: on # \x7d\n\x7d"),
      (.executable, "\x7b type # \x7b\n\x7d"),
      (.typeSystem, "directive @on repeatable on | FIELD"),
      (.executable, "fragment scalar on union \x7b a \x7d"),
      (.typeSystem, "scalar query @on(a: 1)"),
      (.executable, "query query \x7b b \x7d"),
      (.typeSystem, "\"x\ry\" input mutation \x7b fragment: Int \x7d")]

theorem load_joined_keywordsForNames :
    let text := "\n".intercalate (keywordsForNames.map Piece.text)
    keywordsForNames.length = 7 ∧
      (∀ p ∈ keywordsForNames, p.definition.lacksBraces = false) ∧
      List.IsChain Piece.Joins keywordsForNames ∧
      runs text.toList = runsByTokens text.toList ∧
      ∃ ds, Document.empty.load text = .ok (Document.empty.append ds) ∧
        ds.map Definition.unplaced = keywordsForNames.map (·.definition.unplaced) := by
  intro text
  have met : keywordsForNames.length = 7 ∧
      (∀ p ∈ keywordsForNames, p.definition.lacksBraces = false) ∧
      List.IsChain Piece.Joins keywordsForNames ∧
      runs text.toList = runsByTokens text.toList := by decide +kernel
  obtain ⟨length, braces, joins, agree⟩ := met
  have begun : keywordsForNames ≠ [] := fun empty => by rw [empty] at length; cases length
  exact ⟨length, braces, joins, agree, load_joined .empty begun braces joins (.inr agree)⟩

/-- Whether texts that are definitions by themselves, and lack no braces, are
refused in a row. -/
def refusedInARow (texts : List (RunKind × String)) : Bool :=
  (Piece.ofTexts texts).map Piece.text = texts.map Prod.snd &&
    (Piece.ofTexts texts).all (fun p => !p.definition.lacksBraces) &&
    !(Document.empty.load ("\n".intercalate (texts.map Prod.snd))).isOk

/-- Neighbours cannot always be told apart: a brace after a name, a keyword after
another, what follows a string with a carriage return, and a name where locations
may follow. -/
theorem refusedInARow_untold :
    refusedInARow [(.typeSystem, "scalar Date"), (.executable, "\x7b a \x7d")] = true ∧
      refusedInARow [(.typeSystem, "scalar query"), (.executable, "query \x7b a \x7d")] = true ∧
      refusedInARow [(.typeSystem, "\"x\ry\" type T \x7b a: Int \x7d"),
        (.executable, "\x7b a \x7d")] = true ∧
      refusedInARow [(.typeSystem, "directive @a on"),
        (.typeSystem, "type T \x7b a: Int \x7d")] = true := by
  decide +kernel

end GraphQLStatics
