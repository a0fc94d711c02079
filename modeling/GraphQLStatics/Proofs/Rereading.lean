import Mathlib.Data.List.Forall2
import GraphQLStatics.Token.Scanner

/-!
# Reading the same characters at another place

What a scanner makes of characters depends on where it stands only in the
positions that it notes.  Two scanners that are in the middle of the same thing
therefore read the same tokens, and the same positions if they stand at the same
one.  This file makes that precise, and says where a text can be cut such that
its parts are read like the whole.

## Main Definitions

* `Drift`: how the positions of two readings may be related
* `Scanner.Alike`: two scanners in the middle of the same thing
* `Scanner.settle`: the scanner once the token being read is complete
* `Scanner.Opens`: the next character begins a token
* `Scanner.Move`: what one character does to a scanner

## Main Statements

* `Scanner.Alike.feedAll`: scanners that are alike stay alike
* `Scanner.finish_lexemes`, `Scanner.finish_complete`: the end of a text
* `Scanner.feed_lineFeed`: a line feed settles
* `Scanner.Opens.alike`: where a token begins, reading can begin
* `Scanner.move_feed`: every character is one of a few moves
-/

namespace GraphQLStatics

/-- A relation between the positions of two readings, kept up by every
movement. -/
structure Drift (R : Position → Position → Prop) : Prop where
  right : ∀ {p q : Position} (n : Nat), R p q → R (p.right n) (q.right n)
  nextLine : ∀ {p q : Position}, R p q → R p.nextLine q.nextLine

theorem drift_eq : Drift Eq where
  right := fun _ same => same ▸ rfl
  nextLine := fun same => same ▸ rfl

theorem drift_any : Drift fun _ _ => True where
  right := fun _ _ => trivial
  nextLine := fun _ => trivial

/-- The same token at related positions. -/
structure Lexeme.Alike (R : Position → Position → Prop) (a b : Lexeme) : Prop where
  token : a.token = b.token
  position : R a.position b.position

namespace Token

/-- Whether the token opens a bracket. -/
def isOpening : Token → Bool
  | .punct p => p.isOpening
  | _ => false

/-- Whether the token closes a bracket. -/
def isClosing : Token → Bool
  | .punct p => p.isClosing
  | _ => false

/-- The token of a number has its characters. -/
theorem eq_of_ofNumber? {cs : List Char} {token : Token} (found : ofNumber? cs = some token) :
    token = .int cs ∨ token = .float cs := by
  unfold ofNumber? at found
  split at found
  · split at found
    · exact .inr (Option.some.inj found).symm
    · cases found
  · split at found
    · exact .inl (Option.some.inj found).symm
    · split at found
      · exact .inr (Option.some.inj found).symm
      · cases found

/-- A number is no bracket. -/
theorem inert_ofNumber? {cs : List Char} {token : Token} (found : ofNumber? cs = some token) :
    token.isOpening = false ∧ token.isClosing = false := by
  rcases eq_of_ofNumber? found with rfl | rfl <;> exact ⟨rfl, rfl⟩

end Token

namespace Scanner

/-- Whether something is being read that began at the token's start. -/
def Mode.inToken : Mode → Bool
  | .blank | .comment | .stuck => false
  | _ => true

/-- Two scanners are in the middle of the same thing.  The first has read the
lexemes `before` besides. -/
structure Alike (R : Position → Position → Prop) (before : List Lexeme) (s t : Scanner) :
    Prop where
  mode : s.mode = t.mode
  room : s.room = t.room
  position : R s.position t.position
  start : s.mode.inToken = true → R s.start t.start
  lexemes : ∃ own, s.lexemes = own ++ before ∧ List.Forall₂ (Lexeme.Alike R) own t.lexemes

namespace Alike

variable {R : Position → Position → Prop} {before : List Lexeme} {s t : Scanner}

theorem afterTokenChar (drift : Drift R) {p q : Position} (related : R p q) (c : Char) :
    R (Scanner.afterTokenChar p c) (Scanner.afterTokenChar q c) := by
  unfold Scanner.afterTokenChar
  split
  · exact drift.nextLine related
  · exact drift.right 1 related

theorem extend (drift : Drift R) (alike : Alike R before s t) (start : R s.start t.start)
    (mode : Mode) (c : Char) : Alike R before (s.extend mode c) (t.extend mode c) where
  mode := rfl
  room := alike.room
  position := afterTokenChar drift alike.position c
  start := fun _ => start
  lexemes := alike.lexemes

theorem emit (alike : Alike R before s t) (start : R s.start t.start) (token : Token) :
    Alike R before (s.emit token) (t.emit token) where
  mode := rfl
  room := alike.room
  position := alike.position
  start := fun inToken => by cases inToken
  lexemes := by
    obtain ⟨own, eq, same⟩ := alike.lexemes
    refine ⟨⟨token, s.start, s.startOffset, s.offset⟩ :: own, ?_, ?_⟩
    · rw [Scanner.emit, eq, List.cons_append]
    · exact .cons ⟨rfl, start⟩ same

theorem fail (alike : Alike R before s t) : Alike R before s.fail t.fail where
  mode := rfl
  room := alike.room
  position := alike.position
  start := fun inToken => by cases inToken
  lexemes := alike.lexemes

theorem withRoom (alike : Alike R before s t) (room : Nat) :
    Alike R before { s with room } { t with room } where
  mode := alike.mode
  room := rfl
  position := alike.position
  start := alike.start
  lexemes := alike.lexemes

theorem punctuate (drift : Drift R) (alike : Alike R before s t) (start : R s.start t.start)
    (p : Punctuator) (c : Char) : Alike R before (s.punctuate p c) (t.punctuate p c) := by
  have extended := alike.extend drift start .blank c
  unfold Scanner.punctuate
  rw [alike.room]
  split
  · split
    · exact alike.fail
    · exact (extended.withRoom _).emit start (.punct p)
  · split
    · exact (extended.withRoom _).emit start (.punct p)
    · exact extended.emit start (.punct p)

theorem feedStart (drift : Drift R) (alike : Alike R before s t) (c : Char) :
    Alike R before (s.feedStart c) (t.feedStart c) := by
  have begun : Alike R before { s with start := s.position, startOffset := s.offset }
      { t with start := t.position, startOffset := t.offset } :=
    { alike with start := fun _ => alike.position }
  unfold Scanner.feedStart
  split
  · exact begun.extend drift alike.position _ c
  · split
    · exact begun.extend drift alike.position _ c
    · split
      · exact begun.extend drift alike.position _ c
      · split
        · exact begun.extend drift alike.position _ c
        · split
          · exact begun.punctuate drift alike.position _ c
          · exact begun.fail

/-- A character that may stand between tokens moves related positions alike. -/
theorem afterBlank? (drift : Drift R) {p q : Position} (related : R p q) (c : Char) :
    (Scanner.afterBlank? p c = none ∧ Scanner.afterBlank? q c = none) ∨
      ∃ p' q', Scanner.afterBlank? p c = some p' ∧ Scanner.afterBlank? q c = some q' ∧
        R p' q' := by
  unfold Scanner.afterBlank?
  split
  · exact .inr ⟨_, _, rfl, rfl, drift.right 1 related⟩
  · exact .inr ⟨_, _, rfl, rfl, drift.right 1 related⟩
  · exact .inr ⟨_, _, rfl, rfl, drift.right 8 related⟩
  · exact .inr ⟨_, _, rfl, rfl, drift.nextLine related⟩
  · exact .inr ⟨_, _, rfl, rfl, related⟩
  · exact .inr ⟨_, _, rfl, rfl, related⟩
  · exact .inl ⟨rfl, rfl⟩

theorem feedBlank (drift : Drift R) (alike : Alike R before s t) (c : Char) :
    Alike R before (s.feedBlank c) (t.feedBlank c) := by
  unfold Scanner.feedBlank
  split
  · exact { alike with mode := rfl, start := fun inToken => by cases inToken }
  · obtain ⟨left, right⟩ | ⟨p, q, left, right, related⟩ := afterBlank? drift alike.position c
    · simp only [left, right]
      exact alike.feedStart drift c
    · simp only [left, right]
      exact {
        alike with mode := rfl, position := related, start := fun inToken => by cases inToken }

/-- Scanners that are alike stay alike. -/
theorem feed (drift : Drift R) (alike : Alike R before s t) (c : Char) :
    Alike R before (s.feed c) (t.feed c) := by
  have mode := alike.mode
  unfold Scanner.feed
  cases current : s.mode with
  | blank =>
      rw [← mode, current]
      exact alike.feedBlank drift c
  | comment =>
      rw [← mode, current]
      dsimp only
      split
      · exact {
          alike with
          mode := rfl
          position := drift.nextLine alike.position
          start := fun inToken => by cases inToken }
      · exact { alike with mode := rfl, start := fun inToken => by cases inToken }
  | stuck =>
      rw [← mode, current]
      exact alike
  | name text =>
      have start := alike.start (by rw [current]; rfl)
      rw [← mode, current]
      dsimp only
      split
      · exact alike.extend drift start _ c
      · exact (alike.emit start _).feedBlank drift c
  | number text =>
      have start := alike.start (by rw [current]; rfl)
      rw [← mode, current]
      dsimp only
      split
      · split
        · exact (alike.emit start _).feedBlank drift c
        · exact alike.fail
      · exact alike.extend drift start _ c
  | dots count =>
      have start := alike.start (by rw [current]; rfl)
      rw [← mode, current]
      dsimp only
      split
      · split
        · exact alike.extend drift start _ c
        · exact (alike.extend drift start _ c).emit start _
      · exact alike.fail
  | quoted body escaped =>
      have start := alike.start (by rw [current]; rfl)
      rw [← mode, current]
      dsimp only
      split
      · exact alike.fail
      · split
        · split
          · exact alike.extend drift start _ c
          · exact (alike.extend drift start _ c).emit start _
        · exact alike.extend drift start _ c
  | emptyQuotes =>
      have start := alike.start (by rw [current]; rfl)
      rw [← mode, current]
      dsimp only
      split
      · exact alike.extend drift start _ c
      · exact (alike.emit start _).feedBlank drift c
  | block body tail =>
      have start := alike.start (by rw [current]; rfl)
      rw [← mode, current]
      dsimp only
      split
      · exact alike.extend drift start _ c
      · exact (alike.extend drift start _ c).emit start _

theorem feedAll (drift : Drift R) (alike : Alike R before s t) (cs : List Char) :
    Alike R before (s.feedAll cs) (t.feedAll cs) := by
  induction cs generalizing s t with
  | nil => exact alike
  | cons c cs ih => exact ih (alike.feed drift c)

end Alike

/-! ### Where tokens end -/

/-- The scanner once the token being read is complete; it is stuck if there is
no such token. -/
def settle (s : Scanner) : Scanner :=
  match s.mode with
  | .blank | .comment => { s with mode := .blank }
  | .name text => s.emit (.name (String.ofList text.reverse))
  | .number text =>
    match Token.ofNumber? text.reverse with
    | some token => s.emit token
    | none => s.fail
  | .emptyQuotes => s.emit (.string [])
  | .dots _ | .quoted _ _ | .block _ _ | .stuck => s.fail

theorem settle_of_blank {s : Scanner} (blank : s.mode = .blank) : s.settle = s := by
  cases s
  cases blank
  rfl

/-- The text can end here. -/
def Settled (s : Scanner) : Prop :=
  s.settle.mode = .blank

theorem finish_lexemes (s : Scanner) : s.finish.lexemes = s.settle.lexemes.reverse := by
  unfold finish settle
  cases s.mode with
  | number text =>
      dsimp only
      cases Token.ofNumber? text.reverse with
      | some token => rfl
      | none => rfl
  | _ => rfl

theorem finish_complete (s : Scanner) : s.finish.complete = true ↔ s.Settled := by
  unfold finish Settled settle
  cases s.mode with
  | number text =>
      dsimp only
      cases Token.ofNumber? text.reverse with
      | some token => exact iff_of_true rfl rfl
      | none => exact iff_of_false Bool.false_ne_true Mode.noConfusion
  | blank => exact iff_of_true rfl rfl
  | comment => exact iff_of_true rfl rfl
  | name text => exact iff_of_true rfl rfl
  | emptyQuotes => exact iff_of_true rfl rfl
  | _ => exact iff_of_false Bool.false_ne_true Mode.noConfusion

theorem lexemes_lex (cs : List Char) :
    (lex cs).lexemes = (initial.feedAll cs).settle.lexemes.reverse :=
  finish_lexemes _

theorem position_settle (s : Scanner) : s.settle.position = s.position := by
  unfold settle
  cases s.mode with
  | number text =>
      dsimp only
      cases Token.ofNumber? text.reverse with
      | some token => rfl
      | none => rfl
  | _ => rfl

theorem room_settle (s : Scanner) : s.settle.room = s.room := by
  unfold settle
  cases s.mode with
  | number text =>
      dsimp only
      cases Token.ofNumber? text.reverse with
      | some token => rfl
      | none => rfl
  | _ => rfl

theorem Alike.settle {R : Position → Position → Prop} {before : List Lexeme} {s t : Scanner}
    (alike : Alike R before s t) : Alike R before s.settle t.settle := by
  have mode := alike.mode
  unfold Scanner.settle
  cases current : s.mode with
  | blank =>
      rw [← mode, current]
      exact { alike with mode := rfl, start := fun inToken => by cases inToken }
  | comment =>
      rw [← mode, current]
      exact { alike with mode := rfl, start := fun inToken => by cases inToken }
  | name text =>
      have start := alike.start (by rw [current]; rfl)
      rw [← mode, current]
      exact alike.emit start _
  | number text =>
      have start := alike.start (by rw [current]; rfl)
      rw [← mode, current]
      dsimp only
      split
      · exact alike.emit start _
      · exact alike.fail
  | emptyQuotes =>
      have start := alike.start (by rw [current]; rfl)
      rw [← mode, current]
      exact alike.emit start _
  | _ =>
      rw [← mode, current]
      exact alike.fail

/-- A line feed settles, wherever the text could have ended. -/
theorem feed_lineFeed {s : Scanner} (settled : s.Settled) :
    s.feed '\n' = { s.settle with
      position := s.position.nextLine, offset := s.offset + 1 } := by
  unfold Settled settle at settled
  unfold feed settle
  cases current : s.mode with
  | blank => rfl
  | comment => rfl
  | name text => rfl
  | emptyQuotes => rfl
  | number text =>
      rw [current] at settled
      dsimp only at settled ⊢
      cases valid : Token.ofNumber? text.reverse with
      | some token => rfl
      | none => rw [valid] at settled; cases settled
  | _ => rw [current] at settled; cases settled

/-- The character can only be the beginning of a token, if anything is to be
read at all. -/
def Visible (c : Char) : Prop :=
  c ≠ '#' ∧ ∀ p, Scanner.afterBlank? p c = none

/-- The next character begins a token. -/
structure Opens (s : Scanner) (c : Char) : Prop where
  settled : s.Settled
  outside : s.mode ≠ .comment
  visible : Visible c
  feed : s.feed c = s.settle.feedStart c

theorem feed_of_visible {s : Scanner} {c : Char} (blank : s.mode = .blank) (visible : Visible c) :
    s.feed c = s.feedStart c := by
  have other : (c == '#') = false := beq_false_of_ne visible.1
  simp [feed, blank, feedBlank, other, visible.2]

/-- Where a token begins, a scanner goes on like one that begins to read. -/
theorem Opens.alike {R : Position → Position → Prop} (drift : Drift R) {s t : Scanner} {c : Char}
    (opens : s.Opens c) (mode : t.mode = .blank) (lexemes : t.lexemes = [])
    (room : s.room = t.room) (position : R s.position t.position) :
    Alike R s.settle.lexemes (s.feed c) (t.feed c) := by
  have settled : Alike R s.settle.lexemes s.settle t := {
    mode := opens.settled.trans mode.symm
    room := s.room_settle.trans room
    position := s.position_settle ▸ position
    start := fun inToken => by rw [opens.settled] at inToken; cases inToken
    lexemes := ⟨[], rfl, by rw [lexemes]; exact .nil⟩ }
  rw [opens.feed, feed_of_visible mode opens.visible]
  exact settled.feedStart drift c

/-! ### What a step can do -/

/-- What reading a character can do, in view of the tokens. -/
inductive Move (s : Scanner) (c : Char) (s' : Scanner) : Prop
  /-- No token is being read afterwards. -/
  | skip (settled : s.Settled) (mode : s'.mode = .blank ∨ s'.mode = .comment)
      (lexemes : s'.lexemes = s.settle.lexemes) (room : s'.room = s.room)
      (offset : s'.offset = s.offset + c.utf8Size)
  /-- A token begins. -/
  | opens (opens : s.Opens c) (mode : s'.mode.inToken = true)
      (startOffset : s'.startOffset = s.offset)
      (lexemes : s'.lexemes = s.settle.lexemes) (room : s'.room = s.room)
      (offset : s'.offset = s.offset + c.utf8Size)
  /-- The character is a token by itself. -/
  | single (opens : s.Opens c) (token : Token) (mode : s'.mode = .blank)
      (lexemes : s'.lexemes = ⟨token, s.position, s.offset, s'.offset⟩ :: s.settle.lexemes)
      (room : s'.room + token.isOpening.toNat = s.room + token.isClosing.toNat)
      (offset : s'.offset = s.offset + c.utf8Size)
  /-- A token goes on. -/
  | continues (before : s.mode.inToken = true) (mode : s'.mode.inToken = true)
      (startOffset : s'.startOffset = s.startOffset)
      (lexemes : s'.lexemes = s.lexemes) (room : s'.room = s.room)
      (offset : s'.offset = s.offset + c.utf8Size)
  /-- The character is the last of a token, which is no bracket. -/
  | closes (before : s.mode.inToken = true) (token : Token)
      (inert : token.isOpening = false ∧ token.isClosing = false) (mode : s'.mode = .blank)
      (lexemes : s'.lexemes = ⟨token, s.start, s.startOffset, s'.offset⟩ :: s.lexemes)
      (room : s'.room = s.room) (offset : s'.offset = s.offset + c.utf8Size)
  | stuck (mode : s'.mode = .stuck)

theorem offset_settle (s : Scanner) : s.settle.offset = s.offset := by
  unfold settle
  cases s.mode with
  | number text =>
      dsimp only
      cases Token.ofNumber? text.reverse with
      | some token => rfl
      | none => rfl
  | _ => rfl

/-- A bracket takes or gives back room. -/
theorem punctuate_eq (s : Scanner) (p : Punctuator) (c : Char) :
    s.punctuate p c = s.fail ∨
      ∃ room, room + p.isOpening.toNat = s.room + p.isClosing.toNat ∧
        s.punctuate p c = { s.extend .blank c with room }.emit (.punct p) := by
  have exclusive : p.isOpening = true → p.isClosing = false := by cases p <;> decide
  unfold punctuate
  cases opening : p.isOpening with
  | true =>
      rw [exclusive opening, if_pos rfl]
      split
      · exact .inl rfl
      · rename_i some
        exact .inr ⟨s.room - 1, Nat.sub_one_add_one some, rfl⟩
  | false =>
      rw [if_neg Bool.false_ne_true]
      cases p.isClosing with
      | true => exact .inr ⟨s.room + 1, rfl, rfl⟩
      | false => exact .inr ⟨s.room, rfl, rfl⟩

theorem move_feedStart {s : Scanner} {c : Char} (opens : s.Opens c) :
    Move s c (s.settle.feedStart c) := by
  have position := s.position_settle
  have room := s.room_settle
  have offset := s.offset_settle
  have begins (mode : Mode) (inToken : mode.inToken = true) : Move s c
      ({ s.settle with start := s.settle.position, startOffset := s.settle.offset }.extend
        mode c) :=
    .opens opens inToken offset rfl room (congrArg (· + c.utf8Size) offset)
  unfold feedStart
  split
  · exact begins _ rfl
  · split
    · exact begins _ rfl
    · split
      · exact begins _ rfl
      · split
        · exact begins _ rfl
        · split
          · rename_i p _
            obtain failed | ⟨left, balance, done⟩ := punctuate_eq
              { s.settle with start := s.settle.position, startOffset := s.settle.offset } p c
            · rw [failed]
              exact .stuck rfl
            · rw [done]
              refine .single opens (.punct p) rfl ?_ (room ▸ balance)
                (congrArg (· + c.utf8Size) offset)
              rw [← position, ← offset]
              rfl
          · exact .stuck rfl

/-- Where a token may end, what follows it is skipped or begins a token. -/
theorem move_feedBlank {s : Scanner} {c : Char} (settled : s.Settled)
    (outside : s.mode ≠ .comment) (feed : s.feed c = s.settle.feedBlank c) :
    Move s c (s.settle.feedBlank c) := by
  have room := s.room_settle
  have offset := congrArg (· + c.utf8Size) s.offset_settle
  unfold feedBlank at feed ⊢
  split at feed
  · rename_i comment
    rw [if_pos comment]
    exact .skip settled (.inr rfl) rfl room offset
  · rename_i other
    rw [if_neg other]
    split at feed
    · rename_i p blank
      exact .skip settled (.inl rfl) rfl room offset
    · rename_i none
      refine move_feedStart ⟨settled, outside, ⟨fun eq => other (by simp [eq]), ?_⟩, feed⟩
      intro p
      have alike := Alike.afterBlank? drift_any (p := s.settle.position) (q := p) trivial c
      obtain ⟨_, right⟩ | ⟨_, _, left, _⟩ := alike
      · exact right
      · rw [none] at left; cases left

/-- Every step of a scanner is one of these moves. -/
theorem move_feed (s : Scanner) (c : Char) : Move s c (s.feed c) := by
  have goesOn (mode : Mode) (before : s.mode.inToken = true) (after : mode.inToken = true) :
      Move s c (s.extend mode c) := .continues before after rfl rfl rfl rfl
  have ends (token : Token) (inert : token.isOpening = false ∧ token.isClosing = false)
      (before : s.mode.inToken = true) : Move s c ((s.extend .blank c).emit token) :=
    .closes before token inert rfl rfl rfl rfl
  cases current : s.mode with
  | blank =>
      have outside : s.mode ≠ .comment := by rw [current]; exact Mode.noConfusion
      have same := settle_of_blank current
      have eq : s.feed c = s.settle.feedBlank c := by simp only [same, feed, current]
      exact eq ▸ move_feedBlank (by rw [Settled, same, current]) outside eq
  | comment =>
      have settled : s.Settled := by unfold Settled settle; rw [current]
      have lexemes : s.lexemes = s.settle.lexemes := by unfold settle; rw [current]
      unfold feed
      rw [current]
      dsimp only
      split
      · exact .skip settled (.inl rfl) lexemes rfl rfl
      · exact .skip settled (.inr rfl) lexemes rfl rfl
  | name text =>
      have outside : s.mode ≠ .comment := by rw [current]; exact Mode.noConfusion
      have inToken : s.mode.inToken = true := by rw [current]; rfl
      by_cases nameChar : Token.isNameChar c = true
      · simp only [feed, current, if_pos nameChar]
        exact goesOn _ inToken rfl
      · have eq : s.feed c = s.settle.feedBlank c := by
          simp only [feed, settle, current, if_neg nameChar]
        exact eq ▸ move_feedBlank (by unfold Settled settle; rw [current]; rfl) outside eq
  | number text =>
      have outside : s.mode ≠ .comment := by rw [current]; exact Mode.noConfusion
      have inToken : s.mode.inToken = true := by rw [current]; rfl
      by_cases stops : Token.endsNumber c = true
      · cases found : Token.ofNumber? text.reverse with
        | none =>
            simp only [feed, current, if_pos stops, found]
            exact .stuck rfl
        | some token =>
            have eq : s.feed c = s.settle.feedBlank c := by
              simp only [feed, settle, current, if_pos stops, found]
            have settled : s.Settled := by unfold Settled settle; simp only [current, found]; rfl
            exact eq ▸ move_feedBlank settled outside eq
      · simp only [feed, current, if_neg stops]
        exact goesOn _ inToken rfl
  | dots count =>
      have inToken : s.mode.inToken = true := by rw [current]; rfl
      simp only [feed, current]
      split
      · split
        · exact goesOn _ inToken rfl
        · exact ends _ ⟨rfl, rfl⟩ inToken
      · exact .stuck rfl
  | quoted body escaped =>
      have inToken : s.mode.inToken = true := by rw [current]; rfl
      simp only [feed, current]
      split
      · exact .stuck rfl
      · split
        · split
          · exact goesOn _ inToken rfl
          · exact ends _ ⟨rfl, rfl⟩ inToken
        · exact goesOn _ inToken rfl
  | emptyQuotes =>
      have outside : s.mode ≠ .comment := by rw [current]; exact Mode.noConfusion
      have inToken : s.mode.inToken = true := by rw [current]; rfl
      by_cases quote : (c == '"') = true
      · simp only [feed, current, if_pos quote]
        exact goesOn _ inToken rfl
      · have eq : s.feed c = s.settle.feedBlank c := by
          simp only [feed, settle, current, if_neg quote]
        exact eq ▸ move_feedBlank (by unfold Settled settle; rw [current]; rfl) outside eq
  | block body tail =>
      have inToken : s.mode.inToken = true := by rw [current]; rfl
      simp only [feed, current]
      split
      · exact goesOn _ inToken rfl
      · exact ends _ ⟨rfl, rfl⟩ inToken
  | stuck => exact .stuck (by simp only [feed, current])

end Scanner

end GraphQLStatics
