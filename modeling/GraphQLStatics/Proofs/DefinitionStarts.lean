import GraphQLStatics.Document.Run
import GraphQLStatics.Proofs.LexemeSpans

/-!
# Where definitions begin, by the tokens

A splitter looks at characters, and knows less of them than a scanner does.  On
a text that can be read as tokens it nevertheless finds the beginnings of
definitions that can be told from the tokens, unless a string holds a carriage
return.

## Main Definitions

* `Outlook`: what may begin after a token
* `Survey`, `Survey.read`: looking for definitions token by token
* `Tracks`: a splitter is in the middle of what a scanner is

## Main Statements

* `Tracks.feed`: a splitter keeps track of a scanner
* `definitionStarts_eq`: where the definitions of a text begin
-/

namespace GraphQLStatics

/-- Whether a token is a string, other than a block string, that holds a
carriage return. -/
def Token.holdsReturn : Token → Bool
  | .string body => body.contains '\r'
  | _ => false

/-! ### Surveys -/

/-- What may begin after a token outside all brackets. -/
inductive Outlook where
  /-- Any definition, after nothing or a closing brace. -/
  | top
  /-- Any definition with a keyword or a description. -/
  | free
  /-- A definition with a description. -/
  | bound
  /-- No definition, after a description. -/
  | described
  deriving DecidableEq, Repr

/-- The outlook after a token. -/
def Outlook.after : Token → Outlook
  | .punct .closeBrace => .top
  | .punct .equals | .punct .pipe | .punct .ampersand | .punct .colon | .punct .atSign
  | .punct .dollar => .bound
  | .punct _ => .free
  | .name text => if (Splitter.Last.name text).mayPrecede then .free else .bound
  | .int _ | .float _ => .free
  | .string _ | .blockString _ => .described

/-- What is known after some tokens: the number of open brackets, what may begin
next, and where definitions begin, latest first. -/
structure Survey where
  depth : Nat
  outlook : Outlook
  starts : List (Nat × RunKind)
  deriving DecidableEq, Repr

namespace Survey

/-- Before the first token. -/
def initial : Survey := ⟨0, .top, []⟩

/-- The kind of definition that begins with a token. -/
def begins? (v : Survey) (token : Token) : Option RunKind :=
  if v.depth = 0 then
    match token with
    | .name text =>
      if v.outlook = .top ∨ v.outlook = .free then RunKind.ofKeyword? text else none
    | .string _ | .blockString _ => if v.outlook = .described then none else some .typeSystem
    | .punct .openBrace => if v.outlook = .top then some .executable else none
    | _ => none
  else none

/-- Read a token that begins at a byte offset. -/
def read (v : Survey) (token : Token) (start : Nat) : Survey where
  depth := v.depth + token.isOpening.toNat - token.isClosing.toNat
  outlook := .after token
  starts := ((v.begins? token).map fun kind => (start, kind)).toList ++ v.starts

/-- Read lexemes in order. -/
def readAll (v : Survey) (lexemes : List Lexeme) : Survey :=
  lexemes.foldl (fun v ℓ => v.read ℓ.token ℓ.start) v

theorem readAll_cons (v : Survey) (ℓ : Lexeme) (lexemes : List Lexeme) :
    v.readAll (ℓ :: lexemes) = (v.read ℓ.token ℓ.start).readAll lexemes := rfl

theorem readAll_append (v : Survey) (a b : List Lexeme) :
    v.readAll (a ++ b) = (v.readAll a).readAll b :=
  List.foldl_append

/-- The survey of lexemes that are given latest first. -/
def ofLatest (lexemes : List Lexeme) : Survey :=
  lexemes.foldr (fun ℓ v => v.read ℓ.token ℓ.start) initial

/-- No other punctuator than an opening brace begins a definition. -/
theorem read_punct (v : Survey) {p : Punctuator} (other : p ≠ .openBrace) (start : Nat) :
    v.read (.punct p) start =
      ⟨v.depth + p.isOpening.toNat - p.isClosing.toNat, .after (.punct p), v.starts⟩ := by
  have none : v.begins? (.punct p) = none := by
    unfold begins?
    split
    · split <;> simp_all
    · rfl
  simp only [read, none]
  rfl

/-- A number begins nothing, and anything may follow it. -/
theorem read_number (v : Survey) {cs : List Char} {token : Token}
    (found : Token.ofNumber? cs = some token) (start : Nat) :
    v.read token start = { v with outlook := .free } := by
  have none : v.begins? token = none := by
    rcases Token.eq_of_ofNumber? found with rfl | rfl <;> (unfold begins?; split <;> rfl)
  rcases Token.eq_of_ofNumber? found with rfl | rfl <;> (simp only [read, none]; rfl)

theorem ofLatest_eq (lexemes : List Lexeme) :
    ofLatest lexemes = initial.readAll lexemes.reverse :=
  List.foldl_reverse.symm

end Survey

/-! ### Splitters as surveys -/

namespace Splitter

/-- The outlook after the token before the one being read. -/
def Last.outlook : Last → Outlook
  | .closeBrace => .top
  | .string => .described
  | last => if last.mayPrecede then .free else .bound

/-- The outlook of a splitter. -/
def outlook (s : Splitter) : Outlook :=
  s.last.elim .top Last.outlook

/-- What a splitter knows. -/
def survey (s : Splitter) : Survey :=
  ⟨s.depth, s.outlook, s.starts⟩

/-- What the outlook says about the token before. -/
theorem Last.outlook_spec (last : Last) :
    last.mayPrecede = decide (last.outlook = .top ∨ last.outlook = .free) ∧
      (last.outlook = .described ↔ last = .string) ∧
      (last.outlook = .top ↔ last = .closeBrace) := by
  cases last with
  | closeBrace => decide
  | closeParen => decide
  | string => decide
  | name text => cases precedes : (Last.name text).mayPrecede <;> simp [outlook, precedes]
  | symbol c => cases precedes : (Last.symbol c).mayPrecede <;> simp [outlook, precedes]

/-- What the outlook says about a splitter. -/
theorem outlook_spec (s : Splitter) :
    s.last.all Last.mayPrecede = decide (s.outlook = .top ∨ s.outlook = .free) ∧
      (s.outlook = .described ↔ s.last = some .string) ∧
      (s.outlook = .top ↔ s.last = none ∨ s.last = some .closeBrace) := by
  unfold outlook
  cases s.last with
  | none => decide
  | some last =>
      simp only [Option.all_some, Option.elim_some, Option.some.injEq, reduceCtorEq, false_or]
      exact last.outlook_spec

theorem offset_endName (s : Splitter) (start : Nat) (text : List Char) :
    (s.endName start text).offset = s.offset := by
  unfold endName
  dsimp only
  split <;> rfl

/-- A symbol that ties nothing leaves things as they are after one such. -/
theorem survey_symbol {s : Splitter} {c : Char} (offset : Nat) (mode : Mode)
    (free : s.survey.outlook = .free) (precedes : (Last.symbol c).mayPrecede = true) :
    survey { s with mode, offset, last := some (.symbol c) } = s.survey := by
  have same : (Last.symbol c).outlook = s.outlook := by
    simp only [Last.outlook, precedes, if_true]
    exact free.symm
  unfold survey
  rw [← same]
  rfl

theorem survey_endName (s : Splitter) (start : Nat) (text : List Char) :
    (s.endName start text).survey = s.survey.read (.name (String.ofList text.reverse)) start := by
  have found : (if s.depth = 0 && s.last.all Last.mayPrecede then
      RunKind.ofKeyword? (String.ofList text.reverse) else none) =
        s.survey.begins? (.name (String.ofList text.reverse)) := by
    rw [s.outlook_spec.1]
    unfold Survey.begins?
    by_cases outside : s.depth = 0 <;> simp [survey, outside]
  simp only [endName, found, Survey.read]
  cases s.survey.begins? (.name (String.ofList text.reverse)) with
  | none => rfl
  | some kind => rfl

theorem survey_beginString (s : Splitter) :
    s.beginString.survey = s.survey.read (.string []) s.offset := by
  have found : s.survey.begins? (.string []) =
      if s.depth = 0 && s.last ≠ some .string then some .typeSystem else none := by
    unfold Survey.begins?
    by_cases outside : s.depth = 0 <;> simp [survey, outside, s.outlook_spec.2.1]
  simp only [beginString, Survey.read, found]
  split <;> rfl

theorem survey_openBrace (s : Splitter) :
    (s.openBracket '{').survey = s.survey.read (.punct .openBrace) s.offset := by
  have found : s.survey.begins? (.punct .openBrace) =
      if s.depth = 0 && (s.last = none || s.last = some .closeBrace) then
        some .executable else none := by
    unfold Survey.begins?
    by_cases outside : s.depth = 0 <;> simp [survey, outside, s.outlook_spec.2.2]
  simp only [openBracket, beq_self_eq_true, Bool.true_and, Survey.read, found]
  split <;> rfl

/-- A character that is a punctuator by itself. -/
theorem feedBetween_punct (s : Splitter) {c : Char} {p : Punctuator}
    (written : Punctuator.ofChar? c = some p) :
    (s.feedBetween c).mode = .between ∧
      (s.feedBetween c).survey = s.survey.read (.punct p) s.offset := by
  unfold Punctuator.ofChar? at written
  split at written
  case h_5 =>
    cases written
    refine ⟨?_, survey_openBrace { s with mode := .between }⟩
    change (Splitter.openBracket { s with mode := .between } '{').mode = .between
    unfold openBracket
    split <;> rfl
  case h_14 => cases written
  all_goals
    cases written
    refine ⟨rfl, ?_⟩
    rw [Survey.read_punct]
    · rfl
    · decide

/-- A name has begun. -/
theorem feedBetween_nameStart (s : Splitter) {c : Char} (start : Token.isNameStart c = true) :
    s.feedBetween c = { s with mode := .name s.offset [c] } := by
  have other (d : Char) (no : Token.isNameStart d = false) : (c == d) = false :=
    beq_false_of_ne (by rintro rfl; rw [start] at no; cases no)
  simp only [feedBetween, other '#' rfl, other '"' rfl, other '{' rfl, other '(' rfl, other '[' rfl,
    other '}' rfl, other ')' rfl, other ']' rfl, start, Bool.or_self, Bool.false_eq_true,
    if_false, if_true]

/-- A character of a number that begins no name. -/
theorem feedBetween_numeric (s : Splitter) {c : Char} (numeric : Scanner.isNumeric c = true)
    (plain : Token.isNameStart c = false) :
    s.feedBetween c = { s with mode := .between, last := some (.symbol c) } ∧
      (Last.symbol c).mayPrecede = true := by
  simp only [Scanner.isNumeric, List.contains_iff_mem, List.mem_cons, List.not_mem_nil,
    or_false] at numeric
  rcases numeric with rfl | rfl | rfl | rfl | rfl | rfl | rfl | rfl | rfl | rfl | rfl | rfl | rfl |
    rfl | rfl
  case inr.inr.inr.inr.inr.inr.inr.inr.inr.inr.inr.inr.inr.inl => cases plain
  case inr.inr.inr.inr.inr.inr.inr.inr.inr.inr.inr.inr.inr.inr => cases plain
  all_goals exact ⟨rfl, rfl⟩

/-- The characters of a number make no keyword. -/
theorem survey_read_numericName (v : Survey) {text : List Char}
    (numeric : ∀ c ∈ text, Scanner.isNumeric c = true) (start : Nat) :
    v.read (.name (String.ofList text)) start = { v with outlook := .free } := by
  have reserved (word : String) (mark : word.toList.all Scanner.isNumeric = false) :
      String.ofList text ≠ word := by
    rintro rfl
    rw [String.toList_ofList, List.all_eq_true.mpr numeric] at mark
    cases mark
  have keyword : RunKind.ofKeyword? (String.ofList text) = none := by
    simp only [RunKind.ofKeyword?, List.mem_cons, List.not_mem_nil, reserved "fragment" rfl,
      reserved "mutation" rfl, reserved "query" rfl, reserved "subscription" rfl,
      reserved "directive" rfl, reserved "enum" rfl, reserved "extend" rfl, reserved "input" rfl,
      reserved "interface" rfl, reserved "scalar" rfl, reserved "schema" rfl, reserved "type" rfl,
      reserved "union" rfl, or_self, if_false]
  have free : Outlook.after (.name (String.ofList text)) = .free := by
    simp [Outlook.after, Last.mayPrecede, keyword, reserved "implements" rfl, reserved "on" rfl]
  have none : v.begins? (.name (String.ofList text)) = none := by
    simp [Survey.begins?, keyword]
  simp only [Survey.read, none, free]
  rfl

end Splitter

/-! ### Keeping track -/

namespace Splitter

theorem isNameChar_of_endsNumber {c : Char} (stops : Token.endsNumber c = true) :
    Token.isNameChar c = false := by
  simp only [Token.endsNumber, Bool.or_eq_true, beq_iff_eq] at stops
  obtain (((((rfl | rfl) | rfl) | rfl) | rfl) | rfl) | punct := stops
  case inr =>
    unfold Punctuator.ofChar? at punct
    split at punct
    case h_14 => cases punct
    all_goals rfl
  all_goals rfl

/-- A splitter is in the middle of what a scanner is in the middle of, and knows
what can be known from the lexemes.  Numbers, dots and strings are known from
their first character on. -/
inductive Shadows (s : Splitter) (t : Scanner) : Prop
  | blank (scanner : t.mode = .blank) (splitter : s.mode = .between)
      (survey : s.survey = .ofLatest t.lexemes)
  | comment (scanner : t.mode = .comment) (splitter : s.mode = .comment)
      (survey : s.survey = .ofLatest t.lexemes)
  | name (text : List Char) (scanner : t.mode = .name text)
      (splitter : s.mode = .name t.startOffset text)
      (survey : s.survey = .ofLatest t.lexemes)
  | number (text : List Char) (scanner : t.mode = .number text) (begun : text ≠ [])
      (splitter : s.mode = .between ∨
        ∃ start word, s.mode = .name start word ∧ ∀ c ∈ word, Scanner.isNumeric c = true)
      (survey : s.survey = { Survey.ofLatest t.lexemes with outlook := .free })
  | dots (count : Nat) (scanner : t.mode = .dots count) (splitter : s.mode = .between)
      (survey : s.survey = (Survey.ofLatest t.lexemes).read (.punct .ellipsis) t.startOffset)
  | opened (scanner : t.mode = .quoted [] false) (splitter : s.mode = .openQuote)
      (survey : s.survey = (Survey.ofLatest t.lexemes).read (.string []) t.startOffset)
  | quoted (c : Char) (body : List Char) (escaped : Bool)
      (scanner : t.mode = .quoted (c :: body) escaped) (splitter : s.mode = .quoted escaped)
      (survey : s.survey = (Survey.ofLatest t.lexemes).read (.string []) t.startOffset)
  | emptyQuotes (scanner : t.mode = .emptyQuotes) (splitter : s.mode = .emptyQuotes)
      (survey : s.survey = (Survey.ofLatest t.lexemes).read (.string []) t.startOffset)
  | block (body : List Char) (tail : BlockTail) (scanner : t.mode = .block body tail)
      (splitter : s.mode = .block tail)
      (survey : s.survey = (Survey.ofLatest t.lexemes).read (.string []) t.startOffset)

/-- A splitter keeps track of a scanner. -/
structure Tracks (s : Splitter) (t : Scanner) : Prop where
  offset : s.offset = t.offset
  shadows : s.Shadows t

namespace Tracks

variable {s : Splitter} {t : Scanner}

/-- The first character of a token. -/
theorem feedStart {c : Char} (offset : s.offset = t.offset)
    (survey : s.survey = .ofLatest t.lexemes) (unstuck : (t.feedStart c).mode ≠ .stuck) :
    Tracks { s.feedBetween c with offset := s.offset + c.utf8Size } (t.feedStart c) := by
  have advance : s.offset + c.utf8Size = t.offset + c.utf8Size := by rw [offset]
  unfold Scanner.feedStart at unstuck ⊢
  split
  · rename_i quote
    cases beq_iff_eq.mp quote
    refine ⟨advance, .opened rfl rfl ?_⟩
    change (s.feedBetween '"').survey = (Survey.ofLatest t.lexemes).read (.string []) t.offset
    rw [← survey, ← offset]
    exact survey_beginString { s with mode := .between }
  · rename_i noQuote
    rw [if_neg noQuote] at unstuck
    split
    · rename_i dot
      cases beq_iff_eq.mp dot
      refine ⟨advance, .dots 1 rfl rfl ?_⟩
      change (s.feedBetween '.').survey =
        (Survey.ofLatest t.lexemes).read (.punct .ellipsis) t.offset
      rw [Survey.read_punct _ (by decide), ← survey]
      rfl
    · rename_i noDot
      rw [if_neg noDot] at unstuck
      split
      · rename_i start
        rw [s.feedBetween_nameStart start]
        exact ⟨advance, .name [c] rfl (congrArg (Mode.name · [c]) offset) survey⟩
      · rename_i noName
        rw [if_neg noName] at unstuck
        have noName : Token.isNameStart c = false := by simpa using noName
        split
        · rename_i numeral
          have numeric : Scanner.isNumeric c = true := by
            simp only [Bool.or_eq_true, beq_iff_eq] at numeral
            obtain rfl | digit := numeral
            · rfl
            · exact Scanner.isNumeric_of_isDigit digit
          obtain ⟨eq, precedes⟩ := s.feedBetween_numeric numeric noName
          rw [eq]
          refine ⟨advance, .number [c] rfl (List.cons_ne_nil c []) (.inl rfl) ?_⟩
          change (⟨s.depth, (Last.symbol c).outlook, s.starts⟩ : Survey) =
            { Survey.ofLatest t.lexemes with outlook := .free }
          rw [← survey]
          simp [Last.outlook, precedes, Splitter.survey]
        · rename_i noNumeral
          rw [if_neg noNumeral] at unstuck
          cases written : Punctuator.ofChar? c with
          | none => simp only [written] at unstuck; exact absurd rfl unstuck
          | some p =>
              obtain ⟨mode, read⟩ := s.feedBetween_punct written
              simp only [written] at unstuck ⊢
              obtain failed | ⟨room, -, done⟩ := Scanner.punctuate_eq
                { t with start := t.position, startOffset := t.offset } p c
              · rw [failed] at unstuck
                exact absurd rfl unstuck
              · rw [done]
                refine ⟨advance, .blank rfl mode ?_⟩
                change (s.feedBetween c).survey =
                  (Survey.ofLatest t.lexemes).read (.punct p) t.offset
                rw [read, survey, offset]

/-- What follows a complete token or white space. -/
theorem feedBlank {c : Char} (offset : s.offset = t.offset)
    (survey : s.survey = .ofLatest t.lexemes) (unstuck : (t.feedBlank c).mode ≠ .stuck) :
    Tracks { s.feedBetween c with offset := s.offset + c.utf8Size } (t.feedBlank c) := by
  have advance : s.offset + c.utf8Size = t.offset + c.utf8Size := by rw [offset]
  unfold Scanner.feedBlank at unstuck ⊢
  split
  · rename_i comment
    cases beq_iff_eq.mp comment
    exact ⟨advance, .comment rfl rfl survey⟩
  · rename_i noComment
    rw [if_neg noComment] at unstuck
    cases blank : Scanner.afterBlank? t.position c with
    | none =>
        simp only [blank] at unstuck
        exact feedStart offset survey unstuck
    | some position =>
        have skipped : s.feedBetween c = { s with mode := .between } := by
          unfold Scanner.afterBlank? at blank
          split at blank
          case h_7 => cases blank
          all_goals rfl
        rw [skipped]
        exact ⟨advance, .blank rfl rfl survey⟩

/-- What ends a name. -/
theorem feedAfterName {c : Char} {start : Nat} {text : List Char} {token : Token}
    (offset : s.offset = t.offset)
    (read : s.survey.read (.name (String.ofList text.reverse)) start =
      .ofLatest (t.emit token).lexemes)
    (unstuck : ((t.emit token).feedBlank c).mode ≠ .stuck) :
    Tracks { (s.endName start text).feedBetween c with offset := s.offset + c.utf8Size }
      ((t.emit token).feedBlank c) := by
  have same := s.offset_endName start text
  have survey : (s.endName start text).survey = .ofLatest (t.emit token).lexemes :=
    (s.survey_endName start text).trans read
  have tracks := feedBlank (t := t.emit token) (same.trans offset) survey unstuck
  rwa [same] at tracks

/-- What ends a number.  The splitter may take its last characters for a name. -/
theorem feedAfterNumber {c : Char} {text : List Char} {token : Token} (offset : s.offset = t.offset)
    (found : Token.ofNumber? text = some token) (stops : Token.endsNumber c = true)
    (splitter : s.mode = .between ∨
      ∃ start word, s.mode = .name start word ∧ ∀ c ∈ word, Scanner.isNumeric c = true)
    (survey : s.survey = { Survey.ofLatest t.lexemes with outlook := .free })
    (unstuck : ((t.emit token).feedBlank c).mode ≠ .stuck) :
    Tracks (s.feed c) ((t.emit token).feedBlank c) := by
  have read : s.survey = .ofLatest (t.emit token).lexemes := by
    rw [survey]
    exact ((Survey.ofLatest t.lexemes).read_number found t.startOffset).symm
  unfold Splitter.feed feedAt
  obtain between | ⟨start, word, name, numeric⟩ := splitter
  · rw [between]
    exact feedBlank (t := t.emit token) offset read unstuck
  · rw [name]
    simp only [isNameChar_of_endsNumber stops, Bool.false_eq_true, if_false]
    refine feedAfterName offset ?_ unstuck
    rw [survey_read_numericName _ (by simpa using numeric), ← read, survey]

/-- A number goes on. -/
theorem feedNumber {c : Char} {text : List Char} (offset : s.offset = t.offset)
    (numeric : Scanner.isNumeric c = true)
    (splitter : s.mode = .between ∨
      ∃ start word, s.mode = .name start word ∧ ∀ c ∈ word, Scanner.isNumeric c = true)
    (survey : s.survey = { Survey.ofLatest t.lexemes with outlook := .free }) :
    Tracks (s.feed c) (t.extend (.number (c :: text)) c) := by
  have advance : s.offset + c.utf8Size = t.offset + c.utf8Size := by rw [offset]
  have begun := List.cons_ne_nil c text
  have free : s.survey.outlook = .free := by rw [survey]
  unfold Splitter.feed feedAt
  obtain between | ⟨start, word, name, numerals⟩ := splitter
  · rw [between]
    dsimp only
    cases nameStart : Token.isNameStart c with
    | true =>
        -- the mark of an exponent begins a name to the splitter
        rw [s.feedBetween_nameStart nameStart]
        exact ⟨advance,
          .number _ rfl begun (.inr ⟨s.offset, [c], rfl, by simpa using numeric⟩) survey⟩
    | false =>
        obtain ⟨eq, precedes⟩ := s.feedBetween_numeric numeric nameStart
        rw [eq]
        refine ⟨advance, .number _ rfl begun (.inl rfl) ?_⟩
        exact (survey_symbol s.offset .between free precedes).trans survey
  · rw [name]
    dsimp only
    cases nameChar : Token.isNameChar c with
    | true =>
        refine ⟨advance, .number _ rfl begun (.inr ⟨start, c :: word, rfl, ?_⟩) survey⟩
        simpa using ⟨numeric, numerals⟩
    | false =>
        have nameStart : Token.isNameStart c = false := by
          rw [Token.isNameChar, Bool.or_eq_false_iff] at nameChar
          exact nameChar.1
        have ended : (s.endName start word).survey = s.survey := by
          rw [survey_endName, survey_read_numericName _ (by simpa using numerals), survey]
        obtain ⟨eq, precedes⟩ := (s.endName start word).feedBetween_numeric numeric nameStart
        simp only [Bool.false_eq_true, if_false, eq]
        refine ⟨advance, .number _ rfl begun (.inl rfl) ?_⟩
        have same := survey_symbol (s := s.endName start word) (s.offset + c.utf8Size) .between
          (ended ▸ free) precedes
        exact same.trans (ended.trans survey)

/-- One more character, on the way to the end of a text. -/
theorem feed {c : Char} {rest : List Char} (tracks : s.Tracks t)
    (settled : ((t.feed c).feedAll rest).Settled)
    (plain : ∀ ℓ ∈ ((t.feed c).feedAll rest).settle.lexemes, ℓ.token.holdsReturn = false) :
    (s.feed c).Tracks (t.feed c) := by
  have offset := tracks.offset
  have advance : s.offset + c.utf8Size = t.offset + c.utf8Size := by rw [offset]
  have unstuck : (t.feed c).mode ≠ .stuck := Scanner.unstuck_of_feedAll settled.unstuck
  -- a carriage return in a string would show up among the lexemes
  have noReturn {body : List Char} {escaped : Bool}
      (mode : (t.feed c).mode = .quoted (c :: body) escaped) : (c == '\r') = false := by
    obtain ⟨more, ℓ, mem, token⟩ := Scanner.string_of_settled mode (List.cons_ne_nil c body) settled
    have plain := plain ℓ mem
    rw [token] at plain
    refine beq_false_of_ne ?_
    rintro rfl
    simp [Token.holdsReturn] at plain
  cases tracks.shadows with
  | blank scanner splitter survey =>
      simp only [Scanner.feed, scanner] at unstuck ⊢
      simp only [Splitter.feed, feedAt, splitter]
      exact feedBlank offset survey unstuck
  | comment scanner splitter survey =>
      simp only [Scanner.feed, scanner, Splitter.feed, feedAt, splitter]
      split
      · exact ⟨advance, .blank rfl rfl survey⟩
      · exact ⟨advance, .comment rfl splitter survey⟩
  | name text scanner splitter survey =>
      simp only [Splitter.feed, feedAt, splitter]
      by_cases nameChar : Token.isNameChar c = true
      · simp only [Scanner.feed, scanner, if_pos nameChar]
        exact ⟨advance, .name (c :: text) rfl rfl survey⟩
      · simp only [Scanner.feed, scanner, if_neg nameChar] at unstuck ⊢
        exact feedAfterName offset (by rw [survey]; rfl) unstuck
  | number text scanner begun splitter survey =>
      by_cases stops : Token.endsNumber c = true
      · simp only [Scanner.feed, scanner, if_pos stops] at unstuck ⊢
        cases found : Token.ofNumber? text.reverse with
        | none => rw [found] at unstuck; exact absurd rfl unstuck
        | some token =>
            rw [found] at unstuck
            exact feedAfterNumber offset found stops splitter survey unstuck
      · -- other characters would leave a number that cannot be read
        have goesOn : t.feed c = t.extend (.number (c :: text)) c := by
          simp only [Scanner.feed, scanner, if_neg stops]
        have numeric : Scanner.isNumeric c = true :=
          Scanner.numeric_of_settled (by rw [goesOn]; rfl) begun settled
        rw [goesOn]
        exact feedNumber offset numeric splitter survey
  | dots count scanner splitter survey =>
      by_cases dot : c = '.'
      · cases dot
        have free : s.survey.outlook = .free := by rw [survey]; rfl
        have again : Splitter.survey { s.feedBetween '.' with offset := s.offset + '.'.utf8Size } =
            s.survey := survey_symbol (c := '.') _ .between free rfl
        simp only [Scanner.feed, scanner, Splitter.feed, feedAt, splitter, beq_self_eq_true,
          if_true]
        split
        · exact ⟨advance, .dots _ rfl rfl (again.trans survey)⟩
        · exact ⟨advance, .blank rfl rfl (again.trans survey)⟩
      · simp only [Scanner.feed, scanner, beq_false_of_ne dot] at unstuck
        exact absurd rfl unstuck
  | opened scanner splitter survey =>
      simp only [Splitter.feed, feedAt, splitter]
      by_cases newline : (c == '\n') = true
      · simp only [Scanner.feed, scanner, if_pos newline] at unstuck
        exact absurd rfl unstuck
      · by_cases quote : (c == '"') = true
        · simp only [Scanner.feed, scanner, if_neg newline, quote, Bool.not_false, Bool.and_true,
            List.isEmpty_nil, if_true]
          exact ⟨advance, .emptyQuotes rfl rfl survey⟩
        · have goesOn : t.feed c = t.extend (.quoted [c] (c == '\\')) c := by
            simp [Scanner.feed, scanner, newline, quote]
          have noReturn := noReturn (by rw [goesOn]; rfl)
          rw [goesOn]
          simp only [newline, quote, noReturn, Bool.or_self, Bool.false_eq_true, if_false]
          exact ⟨advance, .quoted c [] _ rfl rfl survey⟩
  | quoted first body escaped scanner splitter survey =>
      by_cases newline : (c == '\n') = true
      · simp only [Scanner.feed, scanner, if_pos newline] at unstuck
        exact absurd rfl unstuck
      · cases escaped with
        | true =>
            simp only [Splitter.feed, feedAt, splitter, Scanner.feed, scanner, if_neg newline,
              Bool.not_true, Bool.and_false, Bool.false_and, Bool.false_eq_true, if_false]
            exact ⟨advance, .quoted c _ _ rfl rfl survey⟩
        | false =>
            by_cases quote : (c == '"') = true
            · simp only [Splitter.feed, feedAt, splitter, Scanner.feed, scanner, if_neg newline,
                quote, Bool.not_false, Bool.and_true, List.isEmpty_cons, Bool.true_or,
                Bool.false_eq_true, if_false, if_true]
              exact ⟨advance, .blank rfl rfl survey⟩
            · have goesOn : t.feed c = t.extend (.quoted (c :: first :: body) (c == '\\')) c := by
                simp [Scanner.feed, scanner, newline, quote]
              have noReturn := noReturn (by rw [goesOn]; rfl)
              rw [goesOn]
              simp only [Splitter.feed, feedAt, splitter, newline, quote, noReturn, Bool.or_self,
                Bool.false_eq_true, if_false]
              exact ⟨advance, .quoted c _ _ rfl rfl survey⟩
  | emptyQuotes scanner splitter survey =>
      simp only [Splitter.feed, feedAt, splitter]
      by_cases quote : (c == '"') = true
      · simp only [Scanner.feed, scanner, if_pos quote]
        exact ⟨advance, .block [] .start rfl rfl survey⟩
      · simp only [Scanner.feed, scanner, if_neg quote] at unstuck ⊢
        exact feedBlank (t := t.emit (.string [])) offset survey unstuck
  | block body tail scanner splitter survey =>
      simp only [Scanner.feed, scanner, Splitter.feed, feedAt, splitter]
      cases tail.feed c with
      | none => exact ⟨advance, .blank rfl rfl survey⟩
      | some tail => exact ⟨advance, .block (c :: body) tail rfl rfl survey⟩

/-- A splitter keeps track of a scanner to the end of a text. -/
theorem feedAll {cs : List Char} (tracks : s.Tracks t) (settled : (t.feedAll cs).Settled)
    (plain : ∀ ℓ ∈ (t.feedAll cs).settle.lexemes, ℓ.token.holdsReturn = false) :
    (s.feedAll cs).Tracks (t.feedAll cs) := by
  induction cs generalizing s t with
  | nil => exact tracks
  | cons c cs ih => exact ih (tracks.feed settled plain) settled plain

/-- What a splitter has found at the end of a text. -/
theorem finish (tracks : s.Tracks t) (settled : t.Settled) :
    s.finish = (Survey.ofLatest t.settle.lexemes).starts.reverse := by
  unfold Splitter.finish
  cases tracks.shadows with
  | blank scanner splitter survey =>
      rw [splitter, Scanner.settle_of_blank scanner, ← survey]
      rfl
  | comment scanner splitter survey =>
      have lexemes : t.settle.lexemes = t.lexemes := by simp only [Scanner.settle, scanner]
      rw [splitter, lexemes, ← survey]
      rfl
  | name text scanner splitter survey =>
      have settle : t.settle = t.emit (.name (String.ofList text.reverse)) := by
        simp only [Scanner.settle, scanner]
      have ended := s.survey_endName t.startOffset text
      rw [survey] at ended
      rw [splitter, settle]
      exact congrArg (fun v => v.starts.reverse) ended
  | number text scanner begun splitter survey =>
      obtain ⟨token, found⟩ : ∃ token, Token.ofNumber? text.reverse = some token := by
        cases found : Token.ofNumber? text.reverse with
        | some token => exact ⟨token, rfl⟩
        | none =>
            simp only [Scanner.Settled, Scanner.settle, scanner, found] at settled
            cases settled
      have settle : t.settle = t.emit token := by simp only [Scanner.settle, scanner, found]
      have read : Survey.ofLatest (t.emit token).lexemes = s.survey := by
        rw [survey]
        exact (Survey.ofLatest t.lexemes).read_number found t.startOffset
      rw [settle, read]
      obtain between | ⟨start, word, name, numerals⟩ := splitter
      · rw [between]
        rfl
      · have ended := s.survey_endName start word
        rw [survey_read_numericName _ (by simpa using numerals)] at ended
        rw [name]
        exact congrArg (fun v => v.starts.reverse) ended
  | emptyQuotes scanner splitter survey =>
      have settle : t.settle = t.emit (.string []) := by simp only [Scanner.settle, scanner]
      rw [splitter, settle]
      exact congrArg (fun v => v.starts.reverse) survey
  | dots _ scanner | opened scanner | quoted _ _ _ scanner | block _ _ scanner =>
      simp only [Scanner.Settled, Scanner.settle, scanner] at settled
      cases settled

end Tracks

end Splitter

/-- Where the definitions of a text begin, by its tokens. -/
theorem definitionStarts_eq {cs : List Char} (complete : (lex cs).complete = true)
    (plain : ∀ ℓ ∈ (lex cs).lexemes, ℓ.token.holdsReturn = false) :
    definitionStarts cs = (Survey.initial.readAll (lex cs).lexemes).starts.reverse := by
  have settled := (Scanner.finish_complete _).mp complete
  have lexemes := Scanner.lexemes_lex cs
  have tracks : Splitter.initial.Tracks Scanner.initial := ⟨rfl, .blank rfl rfl rfl⟩
  have final := tracks.feedAll settled (by simpa [lexemes] using plain)
  rw [lexemes, ← Survey.ofLatest_eq]
  exact final.finish settled

end GraphQLStatics
