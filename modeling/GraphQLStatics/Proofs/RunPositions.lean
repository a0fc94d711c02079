import GraphQLStatics.Proofs.RunTexts

/-!
# Positions within runs

The text of a run has blanks for what precedes the run, so that its lexemes have
the positions that they have within the whole text.  Blanks cannot stand for
everything: a comment that a carriage return ends makes a new line, which the
carriage return alone does not, and within a string a tabulator, a carriage
return and a byte order mark are one column wide each, which between tokens they
are not.

## Main Definitions

* `Scanner.steady`: blanks can stand for what is read

## Main Statements

* `Scanner.position_blanked`: blanks keep the position after them
* `lexemes_source_in_place`: the lexemes of a run keep their positions
* `lexemes_source_after_return`: they do not after a comment that a carriage
  return ends
-/

namespace GraphQLStatics

open Text

theorem Position.eq_of {p q : Position} (line : p.line = q.line) (column : p.column = q.column) :
    p = q := by
  cases p
  cases q
  cases line
  cases column
  rfl

namespace Scanner

/-- Whether a string is being read. -/
def Mode.inString : Mode → Bool
  | .quoted _ _ | .block _ _ => true
  | _ => false

/-- Whether a character is of another width within a string than between
tokens. -/
def widthVaries (c : Char) : Bool :=
  c == '\t' || c == '\r' || c == '\uFEFF'

/-- Whether blanks can stand for characters that are read from a state on: no
carriage return ends a comment, and where the width of a character within a
string matters, a line feed follows. -/
def steady (s : Scanner) : List Char → Bool
  | [] => true
  | c :: cs =>
    !(s.mode == .comment && c == '\r') &&
      (!(s.mode.inString && widthVaries c) || cs.contains '\n') && steady (s.feed c) cs

/-! ### The position after a character -/

theorem pastBlank_of_plain {p : Position} {c : Char} (newline : c ≠ '\n')
    (plain : widthVaries c = false) : pastBlank p c = p.right 1 := by
  simp only [widthVaries, Bool.or_eq_false_iff] at plain
  simp [pastBlank, newline, plain]

theorem position_extend {s : Scanner} {c : Char} (mode : Mode) (plain : widthVaries c = false) :
    (s.extend mode c).position = pastBlank s.position c := by
  change afterTokenChar s.position c = pastBlank s.position c
  unfold afterTokenChar
  by_cases newline : c = '\n'
  · cases newline; rfl
  · rw [pastBlank_of_plain newline plain, if_neg (by simpa using newline)]

theorem pastBlank_of_afterBlank? {p q : Position} {c : Char} (blank : afterBlank? p c = some q) :
    q = pastBlank p c := by
  unfold afterBlank? at blank
  split at blank
  case h_7 => cases blank
  all_goals cases blank; rfl

/-- A class of characters without those whose width varies. -/
theorem widthVaries_eq_false {p : Char → Bool} {c : Char} (holds : p c = true)
    (tab : p '\t' = false) (carriage : p '\r' = false) (mark : p '\uFEFF' = false) :
    widthVaries c = false := by
  have other {d : Char} (no : p d = false) : (c == d) = false :=
    beq_false_of_ne (by rintro rfl; rw [holds] at no; cases no)
  rw [widthVaries, other tab, other carriage, other mark]
  rfl

/-- How a character that is read outside comments moves the position. -/
inductive Shift (s : Scanner) (c : Char) (s' : Scanner) : Prop
  /-- Like a blank in its place. -/
  | blank (position : s'.position = pastBlank s.position c)
  /-- Not at all, if it begins a comment. -/
  | comment (mode : s'.mode = .comment) (char : c = '#') (position : s'.position = s.position)
  /-- By a column, if it is a character of a string whose width varies. -/
  | string (inString : s.mode.inString = true) (varies : widthVaries c = true)
      (position : s'.position = s.position.right 1)

theorem position_feedStart {s : Scanner} {c : Char} (unstuck : (s.feedStart c).mode ≠ .stuck) :
    (s.feedStart c).position = pastBlank s.position c := by
  unfold feedStart at unstuck ⊢
  split
  · rename_i quote
    exact position_extend _ (widthVaries_eq_false (p := (· == '"')) quote rfl rfl rfl)
  · rename_i noQuote
    rw [if_neg noQuote] at unstuck
    split
    · rename_i dot
      exact position_extend _ (widthVaries_eq_false (p := (· == '.')) dot rfl rfl rfl)
    · rename_i noDot
      rw [if_neg noDot] at unstuck
      split
      · rename_i name
        exact position_extend _ (widthVaries_eq_false name rfl rfl rfl)
      · rename_i noName
        rw [if_neg noName] at unstuck
        split
        · rename_i number
          exact position_extend _
            (widthVaries_eq_false (p := fun c => c == '-' || c.isDigit) number rfl rfl rfl)
        · rename_i noNumber
          rw [if_neg noNumber] at unstuck
          cases written : Punctuator.ofChar? c with
          | none => simp only [written] at unstuck; exact absurd rfl unstuck
          | some p =>
              simp only [written] at unstuck ⊢
              have plain : widthVaries c = false :=
                widthVaries_eq_false (p := fun c => (Punctuator.ofChar? c).isSome)
                  (by rw [written]; rfl) rfl rfl rfl
              obtain failed | ⟨room, -, done⟩ := punctuate_eq
                { s with start := s.position, startOffset := s.offset } p c
              · rw [failed] at unstuck
                exact absurd rfl unstuck
              · rw [done]
                exact position_extend .blank plain

/-- What follows a complete token or white space, of which `s` may have to
complete the token first. -/
theorem shift_feedBlank {s t : Scanner} {c : Char} (position : t.position = s.position)
    (unstuck : (t.feedBlank c).mode ≠ .stuck) : Shift s c (t.feedBlank c) := by
  unfold feedBlank at unstuck ⊢
  split
  · rename_i comment
    exact .comment rfl (beq_iff_eq.mp comment) position
  · rename_i noComment
    rw [if_neg noComment] at unstuck
    cases blank : afterBlank? t.position c with
    | some next => exact .blank (position ▸ pastBlank_of_afterBlank? blank)
    | none =>
        simp only [blank] at unstuck
        exact .blank (position ▸ position_feedStart unstuck)

/-- A character that goes on with a token other than a string. -/
theorem shift_extend {s : Scanner} {c : Char} (mode : Mode) (plain : widthVaries c = false) :
    Shift s c (s.extend mode c) :=
  .blank (position_extend mode plain)

/-- A character that goes on with a string. -/
theorem shift_string {s : Scanner} {c : Char} (mode : Mode) (inString : s.mode.inString = true) :
    Shift s c (s.extend mode c) := by
  cases varies : widthVaries c with
  | false => exact shift_extend mode varies
  | true =>
      refine .string inString varies ?_
      change afterTokenChar s.position c = _
      have newline : (c == '\n') = false := by
        refine beq_false_of_ne ?_
        rintro rfl
        cases varies
      rw [afterTokenChar, newline]
      rfl

theorem shift_feed {s : Scanner} {c : Char} (outside : s.mode ≠ .comment)
    (unstuck : (s.feed c).mode ≠ .stuck)
    (numeric : ∀ text, s.mode = .number text → (s.feed c).mode = .number (c :: text) →
      isNumeric c = true) : Shift s c (s.feed c) := by
  cases current : s.mode with
  | blank =>
      simp only [feed, current] at unstuck ⊢
      exact shift_feedBlank rfl unstuck
  | comment => exact absurd current outside
  | name text =>
      by_cases nameChar : Token.isNameChar c = true
      · simp only [feed, current, if_pos nameChar]
        exact shift_extend _ (widthVaries_eq_false nameChar rfl rfl rfl)
      · simp only [feed, current, if_neg nameChar] at unstuck ⊢
        exact shift_feedBlank (t := s.emit _) rfl unstuck
  | number text =>
      by_cases stops : Token.endsNumber c = true
      · simp only [feed, current, if_pos stops] at unstuck ⊢
        cases found : Token.ofNumber? text.reverse with
        | none => rw [found] at unstuck; exact absurd rfl unstuck
        | some token =>
            rw [found] at unstuck
            exact shift_feedBlank (t := s.emit token) rfl unstuck
      · have goesOn : s.feed c = s.extend (.number (c :: text)) c := by
          simp only [feed, current, if_neg stops]
        have numeral := numeric text current (by rw [goesOn]; rfl)
        rw [goesOn]
        exact shift_extend _ (widthVaries_eq_false numeral rfl rfl rfl)
  | dots count =>
      simp only [feed, current] at unstuck ⊢
      split
      · rename_i dot
        have plain := widthVaries_eq_false (p := (· == '.')) dot rfl rfl rfl
        split
        · exact shift_extend _ plain
        · exact .blank (position_extend .blank plain)
      · rename_i other
        rw [if_neg other] at unstuck
        exact absurd rfl unstuck
  | quoted body escaped =>
      have inString : s.mode.inString = true := by rw [current]; rfl
      simp only [feed, current] at unstuck ⊢
      split
      · rename_i newline
        rw [if_pos newline] at unstuck
        exact absurd rfl unstuck
      · split
        · rename_i closing
          have plain := widthVaries_eq_false (p := fun c => c == '"' && !escaped) closing rfl rfl
            rfl
          split
          · exact shift_extend _ plain
          · exact .blank (position_extend .blank plain)
        · exact shift_string _ inString
  | emptyQuotes =>
      by_cases quote : (c == '"') = true
      · simp only [feed, current, if_pos quote]
        exact shift_extend _ (widthVaries_eq_false (p := (· == '"')) quote rfl rfl rfl)
      · simp only [feed, current, if_neg quote] at unstuck ⊢
        exact shift_feedBlank (t := s.emit _) rfl unstuck
  | block body tail =>
      have inString : s.mode.inString = true := by rw [current]; rfl
      simp only [feed, current]
      cases closing : tail.feed c with
      | some tail => exact shift_string _ inString
      | none =>
          have quote : (c == '"') = true := by
            by_contra other
            simp only [BlockTail.feed, if_neg other] at closing
            cases closing
          have plain := widthVaries_eq_false (p := (· == '"')) quote rfl rfl rfl
          exact .blank (position_extend .blank plain)
  | stuck =>
      simp only [feed, current] at unstuck
      exact absurd rfl unstuck

/-- A number being read has a character. -/
def Mode.begun : Mode → Bool
  | .number text => !text.isEmpty
  | _ => true

theorem begun_feedBlank (s : Scanner) (c : Char) : (s.feedBlank c).mode.begun = true := by
  unfold feedBlank feedStart
  split
  · rfl
  · split
    · rfl
    · dsimp only
      split
      · rfl
      · split
        · rfl
        · split
          · rfl
          · split
            · rfl
            · split
              · rename_i p _
                obtain failed | ⟨room, -, done⟩ := punctuate_eq
                  { s with start := s.position, startOffset := s.offset } p c
                · rw [failed]; rfl
                · rw [done]; rfl
              · rfl

theorem begun_feed (s : Scanner) (c : Char) : (s.feed c).mode.begun = true := by
  cases current : s.mode with
  | blank => simp only [feed, current]; exact begun_feedBlank s c
  | comment => simp only [feed, current]; split <;> rfl
  | name text => simp only [feed, current]; split; rfl; exact begun_feedBlank _ c
  | number text =>
      simp only [feed, current]
      split
      · split
        · exact begun_feedBlank _ c
        · rfl
      · rfl
  | dots count => simp only [feed, current]; split <;> [split <;> rfl; rfl]
  | quoted body escaped =>
      simp only [feed, current]
      split <;> [rfl; split <;> [split <;> rfl; rfl]]
  | emptyQuotes => simp only [feed, current]; split; rfl; exact begun_feedBlank _ c
  | block body tail => simp only [feed, current]; split <;> rfl
  | stuck => simp only [feed, current]; rfl

/-! ### The position after blanks -/

/-- What has been read and blanks in its place have come to the same line, and
to the same column unless a comment is being read or a new line is to come. -/
structure Abreast (s t : Scanner) (rest : List Char) : Prop where
  mode : t.mode = .blank
  begun : s.mode.begun = true
  line : t.position.line = s.position.line
  column : s.mode ≠ .comment → '\n' ∉ rest → t.position.column = s.position.column

theorem line_pastBlank {p q : Position} (same : p.line = q.line) (c : Char) :
    (pastBlank p c).line = (pastBlank q c).line := by
  unfold pastBlank
  split
  · exact congrArg (· + 1) same
  · split
    · exact same
    · split
      · exact same
      · exact same

theorem line_pastBlank_of_ne {p : Position} {c : Char} (newline : c ≠ '\n') :
    (pastBlank p c).line = p.line := by
  unfold pastBlank
  rw [if_neg (by simpa using newline)]
  split
  · rfl
  · split
    · rfl
    · rfl

/-- Reading on within a comment. -/
theorem Abreast.feedComment {s t : Scanner} {c : Char} {rest : List Char}
    (abreast : Abreast s t (c :: rest)) (comment : s.mode = .comment) (noReturn : c ≠ '\r') :
    Abreast (s.feed c) (t.feed (blanked c)) rest := by
  rw [feed_blanked abreast.mode]
  by_cases newline : c = '\n'
  · cases newline
    have ended : s.feed '\n' = { s with
        mode := .blank, position := s.position.nextLine, offset := s.offset + 1 } := by
      simp only [feed, comment]
      rfl
    rw [ended]
    exact ⟨abreast.mode, rfl, congrArg (· + 1) abreast.line, fun _ _ => rfl⟩
  · have goesOn : s.feed c = { s with offset := s.offset + c.utf8Size } := by
      simp [feed, comment, newline, noReturn]
    rw [goesOn]
    refine ⟨abreast.mode, abreast.begun, ?_, fun outside => absurd comment outside⟩
    exact (line_pastBlank_of_ne newline).trans abreast.line

theorem Abreast.feed {s t : Scanner} {c : Char} {rest : List Char}
    (abreast : Abreast s t (c :: rest)) (quiet : steady s (c :: rest) = true)
    (settled : ((s.feed c).feedAll rest).Settled) :
    Abreast (s.feed c) (t.feed (blanked c)) rest := by
  simp only [steady, Bool.and_eq_true, Bool.or_eq_true, Bool.not_eq_true', Bool.and_eq_false_iff,
    beq_eq_false_iff_ne, List.contains_iff_mem] at quiet
  obtain ⟨⟨noReturn, narrow⟩, -⟩ := quiet
  by_cases comment : s.mode = .comment
  · exact abreast.feedComment comment (noReturn.resolve_left (fun other => other comment))
  · have unstuck : (s.feed c).mode ≠ .stuck := unstuck_of_feedAll settled.unstuck
    -- a number is only known to be one from where it ends
    have numeric : ∀ text, s.mode = .number text → (s.feed c).mode = .number (c :: text) →
        isNumeric c = true := by
      intro text number goesOn
      have begun := abreast.begun
      rw [number] at begun
      exact numeric_of_settled goesOn (by rintro rfl; cases begun) settled
    have same (noLine : '\n' ∉ c :: rest) : t.position = s.position :=
      Position.eq_of abreast.line (abreast.column comment noLine)
    rw [feed_blanked abreast.mode]
    cases shift_feed comment unstuck numeric with
    | blank position =>
        refine ⟨abreast.mode, begun_feed s c, ?_, ?_⟩
        · rw [position]
          exact line_pastBlank abreast.line c
        · intro _ noLine
          rw [position]
          by_cases newline : c = '\n'
          · cases newline; rfl
          · have equal := same (by simp [noLine, Ne.symm newline])
            dsimp only
            rw [equal]
    | comment mode char position =>
        cases char
        refine ⟨abreast.mode, begun_feed s '#', ?_, fun outside => absurd mode outside⟩
        rw [position]
        exact abreast.line
    | string inString varies position =>
        refine ⟨abreast.mode, begun_feed s c, ?_, ?_⟩
        · rw [position]
          have newline : c ≠ '\n' := by rintro rfl; cases varies
          exact (line_pastBlank_of_ne newline).trans abreast.line
        · -- a width that varies is made up for by the new line that is to come
          intro _ noLine
          obtain other | following := narrow
          · obtain other | other := other
            · rw [inString] at other; cases other
            · rw [varies] at other; cases other
          · exact absurd following noLine

theorem Abreast.feedAll {s t : Scanner} {cs : List Char} (abreast : Abreast s t cs)
    (quiet : steady s cs = true) (settled : (s.feedAll cs).Settled) :
    Abreast (s.feedAll cs) (t.feedAll (cs.map blanked)) [] := by
  induction cs generalizing s t with
  | nil => exact abreast
  | cons c cs ih =>
      have next := abreast.feed quiet settled
      simp only [steady, Bool.and_eq_true] at quiet
      exact ih next quiet.2 settled

/-- Blanks keep the position after them. -/
theorem position_blanked {cs : List Char} (quiet : steady initial cs = true)
    (settled : (initial.feedAll cs).Settled) (outside : (initial.feedAll cs).mode ≠ .comment) :
    (initial.feedAll cs).position = (initial.feedAll (cs.map blanked)).position := by
  have start : Abreast initial initial cs := ⟨rfl, rfl, rfl, fun _ _ => rfl⟩
  have final := start.feedAll quiet settled
  exact (Position.eq_of final.line (final.column outside List.not_mem_nil)).symm

end Scanner

/-! ### Lexemes in their places -/

/-- The token of a lexeme and its position. -/
def Lexeme.placed (ℓ : Lexeme) : Token × Position :=
  (ℓ.token, ℓ.position)

theorem placed_of_alike {a b : List Lexeme} (alike : List.Forall₂ (Lexeme.Alike Eq) a b) :
    b.map Lexeme.placed = a.map Lexeme.placed := by
  induction alike with
  | nil => rfl
  | cons same _ ih =>
      rw [List.map_cons, List.map_cons, ih]
      exact congrArg (· :: _) (Prod.ext same.token.symm same.position.symm)

/-- The text of a run can be read to its end, and its lexemes are those that lie
within the run of the whole text, each at its position there, provided that the run
is whole.  It is unless a string holds a carriage return or a bracket is closed that
is not open. -/
theorem lexemes_source_in_place {cs : List Char} {run : Run} (complete : (lex cs).complete = true)
    (mem : run ∈ runs cs)
    (told : (∀ ℓ ∈ (lex cs).lexemes, ℓ.token.holdsReturn = false) ∧
      nested 0 (lex cs).lexemes = true ∨ run.Whole cs)
    (quiet : Scanner.initial.steady (takeBytes run.start cs) = true) :
    (lex (run.source cs)).complete = true ∧
      (lex (run.source cs)).lexemes.map Lexeme.placed =
        ((lex cs).lexemes.filter run.holds).map Lexeme.placed := by
  have whole : run.Whole cs := by
    obtain ⟨plain, brackets⟩ | whole := told
    · exact whole_of_mem_runs complete plain brackets mem
    · exact whole
  obtain ⟨before, after, eq, length, start⟩ := whole.entry complete
  have taken : takeBytes run.start cs = before := by rw [← length, eq, takeBytes_append]
  have position : (Scanner.initial.feedAll (takeBytes run.start cs)).position =
      (Scanner.initial.feedAll ((takeBytes run.start cs).map blanked)).position := by
    rw [taken] at quiet ⊢
    exact Scanner.position_blanked quiet start.settled start.outside
  obtain ⟨read, alike⟩ := lex_source drift_eq complete whole position
  exact ⟨read, placed_of_alike alike⟩

/-- A described type, an operation after a comment, a tabulator and a comma, and
then a string with a carriage return and a bracket that closes nothing. -/
def typeThenQuery : List Char :=
  "\"\"\"\r\n\tÄ\r\n\"\"\"\r\ntype T \x7b a: Int \x7d # ü\n\t, \x7b b: a \x7d \"x\ry\" ]".toList

theorem lexemes_source_in_place_typeThenQuery :
    let run : Run := ⟨.executable, 41, 50⟩
    (lex typeThenQuery).complete = true ∧ run ∈ runs typeThenQuery ∧
      ¬(∀ ℓ ∈ (lex typeThenQuery).lexemes, ℓ.token.holdsReturn = false) ∧
      nested 0 (lex typeThenQuery).lexemes = false ∧ run.Whole typeThenQuery ∧
      Scanner.initial.steady (takeBytes run.start typeThenQuery) = true ∧
      (lex (run.source typeThenQuery)).complete = true ∧
      (lex (run.source typeThenQuery)).lexemes.map Lexeme.placed =
        ((lex typeThenQuery).lexemes.filter run.holds).map Lexeme.placed := by
  intro run
  have complete : (lex typeThenQuery).complete = true := by decide +kernel
  have mem : run ∈ runs typeThenQuery := by decide +kernel
  have returns : ¬(∀ ℓ ∈ (lex typeThenQuery).lexemes, ℓ.token.holdsReturn = false) := by
    decide +kernel
  have brackets : nested 0 (lex typeThenQuery).lexemes = false := by decide +kernel
  have whole : run.Whole typeThenQuery := by decide +kernel
  have quiet : Scanner.initial.steady (takeBytes run.start typeThenQuery) = true := by
    decide +kernel
  exact ⟨complete, mem, returns, brackets, whole, quiet,
    lexemes_source_in_place complete mem (.inr whole) quiet⟩

/-- A comment that ends with a carriage return and a line feed is followed by the
second line after it, and by the next if blanks stand for it. -/
theorem lexemes_source_after_return :
    let cs := "\x7b a \x7d # c\r\nscalar S".toList
    (lex cs).complete = true ∧
      ∃ run ∈ runs cs, (lex (run.source cs)).lexemes.map Lexeme.placed =
          [(.name "scalar", ⟨2, 1⟩), (.name "S", ⟨2, 8⟩)] ∧
        ((lex cs).lexemes.filter run.holds).map Lexeme.placed =
          [(.name "scalar", ⟨3, 1⟩), (.name "S", ⟨3, 8⟩)] := by
  decide +kernel

end GraphQLStatics
