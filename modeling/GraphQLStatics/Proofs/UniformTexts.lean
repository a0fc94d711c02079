import GraphQLStatics.Proofs.MixedTexts

/-!
# Texts of one kind

A splitter looks for definitions of both kinds in every text.  In a text that one of
the grammars accepts it finds definitions of that kind only, so that it does not cut the
text: keywords are taken for names where the grammar takes them for names, and
brackets in strings and comments are passed over.

Only a string that holds a carriage return is read differently by a splitter and by a
scanner.  A text without carriage returns has no such string.

## Main Definitions

* `Scanner.Plain`: a scanner that has met no carriage return in a string
* `Row`, `Begun`: tokens of definitions of one kind, wherever they stand and from the
  beginning of a text

## Main Statements

* `holdsReturn_eq_false_of_notMem`: strings hold nothing that the text does not hold
* `runs_eq_singleton`: a text that is accepted is a single run
* `runs_of_single_grammar`: texts of either kind
-/

namespace GraphQLStatics

open Text Grammar

/-! ### Carriage returns in strings -/

namespace Scanner

/-- What has been read of a string, latest character first. -/
def Mode.quotedText : Mode → List Char
  | .quoted text _ => text
  | _ => []

/-- No string that has been read holds a carriage return, and neither does one that is
being read. -/
structure Plain (s : Scanner) : Prop where
  lexemes : ∀ ℓ ∈ s.lexemes, ℓ.token.holdsReturn = false
  quotedText : '\r' ∉ s.mode.quotedText

theorem holdsReturn_ofNumber? {cs : List Char} {token : Token}
    (found : Token.ofNumber? cs = some token) : token.holdsReturn = false := by
  rcases Token.eq_of_ofNumber? found with rfl | rfl <;> rfl

namespace Plain

variable {s : Scanner}

/-- Where no string is being read. -/
theorem outside (lexemes : ∀ ℓ ∈ s.lexemes, ℓ.token.holdsReturn = false)
    (none : s.mode.quotedText = []) : s.Plain :=
  ⟨lexemes, none ▸ List.not_mem_nil⟩

theorem emit (plain : s.Plain) {token : Token} (free : token.holdsReturn = false) :
    (s.emit token).Plain := by
  refine outside (fun ℓ mem => ?_) rfl
  rcases List.mem_cons.mp mem with rfl | mem
  · exact free
  · exact plain.lexemes ℓ mem

theorem feedStart (plain : s.Plain) (c : Char) : (s.feedStart c).Plain := by
  unfold Scanner.feedStart
  split
  · exact outside plain.lexemes rfl
  · split
    · exact outside plain.lexemes rfl
    · split
      · exact outside plain.lexemes rfl
      · split
        · exact outside plain.lexemes rfl
        · split
          · next p _ =>
            rcases punctuate_eq { s with start := s.position, startOffset := s.offset } p c with
              failed | ⟨room, -, done⟩
            · rw [failed]
              exact outside plain.lexemes rfl
            · rw [done]
              apply emit
              · exact outside plain.lexemes rfl
              · rfl
          · exact outside plain.lexemes rfl

theorem feedBlank (plain : s.Plain) (c : Char) : (s.feedBlank c).Plain := by
  unfold Scanner.feedBlank
  split
  · exact outside plain.lexemes rfl
  · split
    · exact outside plain.lexemes rfl
    · exact plain.feedStart c

/-- Any other character may go into a string. -/
theorem feed (plain : s.Plain) {c : Char} (other : c ≠ '\r') : (s.feed c).Plain := by
  have goesOn (mode : Mode) (none : mode.quotedText = []) : (s.extend mode c).Plain :=
    outside plain.lexemes none
  have failed : s.fail.Plain := outside plain.lexemes rfl
  unfold Scanner.feed
  cases current : s.mode with
  | stuck => exact plain
  | blank => exact plain.feedBlank c
  | comment => dsimp only; split <;> exact outside plain.lexemes rfl
  | name text =>
      dsimp only
      split
      · exact goesOn _ rfl
      · exact (plain.emit rfl).feedBlank c
  | number text =>
      dsimp only
      split
      · split
        · next found => exact (plain.emit (holdsReturn_ofNumber? found)).feedBlank c
        · exact failed
      · exact goesOn _ rfl
  | dots count =>
      dsimp only
      split
      · split
        · exact goesOn _ rfl
        · exact (goesOn .blank rfl).emit rfl
      · exact failed
  | quoted body escaped =>
      have free : '\r' ∉ body := by
        have free := plain.quotedText
        rwa [current] at free
      dsimp only
      split
      · exact failed
      · split
        · split
          · exact goesOn _ rfl
          · exact (goesOn .blank rfl).emit (by simpa [Token.holdsReturn] using free)
        · refine ⟨plain.lexemes, ?_⟩
          show '\r' ∉ c :: body
          simpa [other.symm] using free
  | emptyQuotes =>
      dsimp only
      split
      · exact goesOn _ rfl
      · exact (plain.emit rfl).feedBlank c
  | block body tail =>
      dsimp only
      split
      · exact goesOn _ rfl
      · exact (goesOn .blank rfl).emit rfl

theorem feedAll (plain : s.Plain) {cs : List Char} (noReturn : '\r' ∉ cs) :
    (s.feedAll cs).Plain := by
  induction cs generalizing s with
  | nil => exact plain
  | cons c cs ih =>
      rw [List.mem_cons, not_or] at noReturn
      exact ih (plain.feed (Ne.symm noReturn.1)) noReturn.2

theorem settle (plain : s.Plain) : s.settle.Plain := by
  have failed : s.fail.Plain := outside plain.lexemes rfl
  unfold Scanner.settle
  cases s.mode with
  | blank | comment => exact outside plain.lexemes rfl
  | name text => exact plain.emit rfl
  | number text =>
      dsimp only
      split
      · next found => exact plain.emit (holdsReturn_ofNumber? found)
      · exact failed
  | emptyQuotes => exact plain.emit rfl
  | dots | quoted | block | stuck => exact failed

end Plain

end Scanner

/-- Strings hold no carriage return if the text does not. -/
theorem holdsReturn_eq_false_of_notMem {cs : List Char} (noReturn : '\r' ∉ cs) :
    ∀ ℓ ∈ (lex cs).lexemes, ℓ.token.holdsReturn = false := by
  have plain : (Scanner.initial.feedAll cs).Plain :=
    (Scanner.Plain.outside (fun _ mem => absurd mem List.not_mem_nil) rfl).feedAll noReturn
  intro ℓ mem
  rw [Scanner.lexemes_lex, List.mem_reverse] at mem
  exact plain.settle.lexemes ℓ mem

/-! ### Definitions in a row -/

/-- Tokens of definitions of one kind: whatever stands before them, only definitions of
this kind are seen to begin. -/
def Row (kind : RunKind) (ts : List Token) : Prop :=
  ∀ lexemes, tokens lexemes = ts → ∀ outlook starts, ∃ outlook' more,
    (⟨0, outlook, starts⟩ : Survey).readAll lexemes = ⟨0, outlook', more ++ starts⟩ ∧
      ∀ s ∈ more, s.2 = kind

namespace Row

variable {kind : RunKind}

theorem nil : Row kind [] := by
  intro lexemes eq outlook starts
  cases List.map_eq_nil_iff.mp eq
  exact ⟨outlook, [], rfl, fun s mem => absurd mem List.not_mem_nil⟩

theorem append {a b : List Token} (first : Row kind a) (second : Row kind b) :
    Row kind (a ++ b) := by
  intro lexemes eq outlook starts
  obtain ⟨x, y, rfl, xEq, yEq⟩ := exists_of_tokens_append eq
  obtain ⟨middle, moreX, readX, kindsX⟩ := first x xEq outlook starts
  obtain ⟨last, moreY, readY, kindsY⟩ := second y yEq middle (moreX ++ starts)
  refine ⟨last, moreY ++ moreX, ?_, ?_⟩
  · rw [Survey.readAll_append, readX, readY, List.append_assoc]
  · intro s mem
    rcases List.mem_append.mp mem with mem | mem
    · exact kindsY s mem
    · exact kindsX s mem

/-- A definition that is seen is seen to be what it is. -/
theorem ofShape {ts : List Token} (shape : Shape kind ts) : Row kind ts := by
  intro lexemes eq outlook starts
  obtain ⟨token, head, begins⟩ := shape.opens
  cases lexemes with
  | nil => exact absurd eq.symm shape.firm
  | cons ℓ later =>
      obtain ⟨outlook', -, read⟩ := shape.readAll eq outlook starts
      refine ⟨outlook', _, read, ?_⟩
      intro s mem
      rw [← eq] at head
      cases head
      obtain ⟨seen, isSeen, rfl⟩ := Option.map_eq_some_iff.mp (Option.mem_toList.mp mem)
      exact Option.some.inj ((Survey.begins?_initial isSeen).symm.trans begins)

end Row

/-- Tokens of a text with definitions of one kind: the first of them is seen to begin,
and only definitions of this kind are. -/
def Begun (kind : RunKind) (ts : List Token) : Prop :=
  ∀ lexemes, tokens lexemes = ts → ∃ start more,
    (Survey.initial.readAll lexemes).starts = more ++ [(start, kind)] ∧ ∀ s ∈ more, s.2 = kind

theorem Row.begun {kind : RunKind} {a b : List Token} (shape : Shape kind a) (row : Row kind b) :
    Begun kind (a ++ b) := by
  intro lexemes eq
  obtain ⟨x, y, rfl, xEq, yEq⟩ := exists_of_tokens_append eq
  obtain ⟨token, head, begins⟩ := shape.opens
  cases x with
  | nil => exact absurd xEq.symm shape.firm
  | cons ℓ later =>
      rw [← xEq] at head
      cases head
      have first : ((⟨0, .top, []⟩ : Survey).read ℓ.token ℓ.start).starts = [(ℓ.start, kind)] := by
        show ((Survey.initial.begins? ℓ.token).map _).toList ++ [] = _
        rw [begins]
        rfl
      obtain ⟨middle, -, readX⟩ := shape.readAll xEq .top []
      rw [first] at readX
      obtain ⟨last, more, readY, kinds⟩ := row y yEq middle [(ℓ.start, kind)]
      refine ⟨ℓ.start, more, ?_, kinds⟩
      rw [Survey.readAll_append, Survey.initial, readX, readY]

namespace Grammar

/-- What a grammar accepts are definitions of its kind in a row. -/
theorem begun_of_readAll {kind : RunKind} {lexed : Lexed} {definitions : List Definition}
    (ok : readAll (definition kind) lexed = .ok definitions) :
    lexed.complete = true ∧ Begun kind (tokens lexed.lexemes) := by
  have one : ReadsOn (fun _ _ => False) (Shape kind) (InvImage Eq Definition.unplaced)
      (definition kind) (definition kind) :=
    (ReadsOn.definition kind).mono (fun _ _ impossible => impossible.elim) (fun _ => id)
      fun _ _ => id
  have all := one.many1 (fun _ => true) (fun _ shape => shape.firm) Row.nil
    (fun _ _ shape row => (Row.ofShape shape).append row) fun _ _ => Row.begun
  unfold readAll at ok
  split at ok
  case h_1 items found =>
    split at ok
    case isTrue complete =>
      obtain ⟨used, eq, begun⟩ := all.spells found
      rw [eq, List.append_nil]
      exact ⟨complete, begun⟩
    case isFalse => cases ok
  all_goals cases ok

end Grammar

/-! ### A single run -/

/-- Where the kind never changes, a run goes on to the end. -/
theorem runsFrom_of_uniform {total start : Nat} {kind : RunKind} {rest : List (Nat × RunKind)}
    (uniform : ∀ s ∈ rest, s.2 = kind) :
    runsFrom total start kind rest = [⟨kind, start, total⟩] := by
  induction rest with
  | nil => rfl
  | cons next rest ih =>
      rw [runsFrom, if_pos (uniform next List.mem_cons_self)]
      exact ih fun s mem => uniform s (List.mem_cons_of_mem next mem)

/-- A text that is accepted is a single run, unless a string holds a carriage
return. -/
theorem runs_eq_singleton {kind : RunKind} {cs : List Char} {definitions : List Definition}
    (ok : readDefinitions kind cs = .ok definitions)
    (plain : ∀ ℓ ∈ (lex cs).lexemes, ℓ.token.holdsReturn = false) :
    runs cs = [⟨kind, 0, byteLength cs⟩] := by
  rw [readDefinitions_eq] at ok
  obtain ⟨complete, begun⟩ := begun_of_readAll ok
  obtain ⟨start, more, starts, uniform⟩ := begun _ rfl
  have found : definitionStarts cs = (start, kind) :: more.reverse := by
    rw [definitionStarts_eq complete plain, starts, List.reverse_concat]
  rw [runs, found]
  exact runsFrom_of_uniform fun s mem => uniform s (List.mem_reverse.mp mem)

/-- A run over the whole text has the text for its source. -/
theorem Run.source_whole (kind : RunKind) (cs : List Char) :
    Run.source ⟨kind, 0, byteLength cs⟩ cs = cs := by
  have taken := takeBytes_append cs []
  rw [List.append_nil] at taken
  rw [source, takeBytes, dropBytes, Nat.sub_zero, taken]
  rfl

/-- **A text of one kind is not cut.**  A text without carriage returns that the grammar
of the type system accepts is a single run over all of the text, and likewise a text that
the grammar of operations and fragments accepts. -/
theorem runs_of_single_grammar (text : String) (noReturn : '\r' ∉ text.toList) :
    (∀ definitions, readTypeSystem text.toList = .ok definitions →
      runs text.toList = [⟨.typeSystem, 0, text.utf8ByteSize⟩]) ∧
    (∀ definitions, readExecutable text.toList = .ok definitions →
      runs text.toList = [⟨.executable, 0, text.utf8ByteSize⟩]) ∧
    ∀ kind, Run.source ⟨kind, 0, text.utf8ByteSize⟩ text.toList = text.toList := by
  have plain := holdsReturn_eq_false_of_notMem noReturn
  rw [← byteLength_toList]
  refine ⟨fun definitions ok => ?_, fun definitions ok => ?_, fun kind => Run.source_whole kind _⟩
  · have accepted : readDefinitions .typeSystem text.toList =
        .ok (definitions.map .typeSystem) := by
      rw [readDefinitions, ok]
      rfl
    exact runs_eq_singleton accepted plain
  · exact runs_eq_singleton ok plain

/-- Definitions of types with keywords for names, and with brackets in descriptions,
strings and comments. -/
def keywordTypes : String :=
  "\"\"\"\x7b\"\"\" type on @on(a: \"\x7b\") \x7b query: [on!] # \x7d\n\x7d union type = | schema"

/-- Operations and fragments of this sort. -/
def keywordQueries : String :=
  "query query @on(a:\"\"\"\x7d\"\"\") \x7b on: type # \x7b\n\x7d fragment enum on type \x7b a \x7d"

theorem runs_of_single_grammar_keywords :
    '\r' ∉ keywordTypes.toList ∧ '\r' ∉ keywordQueries.toList ∧
      (∃ definitions, readTypeSystem keywordTypes.toList = .ok definitions) ∧
      (∃ definitions, readExecutable keywordQueries.toList = .ok definitions) ∧
      runs keywordTypes.toList = [⟨.typeSystem, 0, keywordTypes.utf8ByteSize⟩] ∧
      runs keywordQueries.toList = [⟨.executable, 0, keywordQueries.utf8ByteSize⟩] := by
  have accepted : ∀ {ε α : Type} {r : Except ε α}, r.isOk = true → ∃ a, r = .ok a := by
    rintro ε α (_ | a) isOk
    · cases isOk
    · exact ⟨a, rfl⟩
  -- The characters are listed first, since it is slow to find them one by one.
  obtain ⟨types, isTypes, noReturn, okTypes⟩ : ∃ cs, keywordTypes.toList = cs ∧ '\r' ∉ cs ∧
      (readTypeSystem cs).isOk = true := by
    refine ⟨_, String.toList_ofList, ?_, ?_⟩ <;> decide +kernel
  obtain ⟨queries, isQueries, noReturn', okQueries⟩ : ∃ cs, keywordQueries.toList = cs ∧
      '\r' ∉ cs ∧ (readExecutable cs).isOk = true := by
    refine ⟨_, String.toList_ofList, ?_, ?_⟩ <;> decide +kernel
  subst isTypes isQueries
  obtain ⟨definitions, ok⟩ := accepted okTypes
  obtain ⟨definitions', ok'⟩ := accepted okQueries
  exact ⟨noReturn, noReturn', ⟨definitions, ok⟩, ⟨definitions', ok'⟩,
    (runs_of_single_grammar keywordTypes noReturn).1 definitions ok,
    (runs_of_single_grammar keywordQueries noReturn').2.1 definitions' ok'⟩

end GraphQLStatics
