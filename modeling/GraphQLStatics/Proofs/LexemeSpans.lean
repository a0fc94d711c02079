import Mathlib.Data.List.Induction
import Mathlib.Data.List.TakeDrop
import GraphQLStatics.Proofs.Rereading
import GraphQLStatics.Text.Blank

/-!
# Where lexemes lie

The bytes of a lexeme, in terms of the characters that the scanner had read when
it came upon it.

## Main Definitions

* `Scanner.Since`: what a scanner has read since it stood at a byte
* `Scanner.BeginsAt`: the place at which a lexeme begins

## Main Statements

* `Scanner.feedAll_induction`: induction on the characters of a text that can be
  read
* `Scanner.Since.feedAll`: lexemes follow each other
* `Scanner.beginsAt_of_lex`: every lexeme has an origin
* `Scanner.level_feedAll`: the room left, by the brackets read
* `Scanner.numeric_of_settled`, `Scanner.string_of_settled`: what is being read
  when a token will be complete
-/

namespace GraphQLStatics

open Text

namespace Scanner

/-! ### Texts that can be read -/

theorem feedAll_of_stuck {s : Scanner} (stuck : s.mode = .stuck) (cs : List Char) :
    s.feedAll cs = s := by
  have idle (c : Char) : s.feed c = s := by simp only [feed, stuck]
  induction cs with
  | nil => rfl
  | cons c cs ih => rw [feedAll_cons, idle, ih]

theorem Settled.unstuck {s : Scanner} (settled : s.Settled) : s.mode ≠ .stuck := by
  intro stuck
  unfold Settled settle at settled
  rw [stuck] at settled
  cases settled

/-- What can be read to the end does not get stuck on the way. -/
theorem unstuck_of_feedAll {s : Scanner} {cs : List Char} (unstuck : (s.feedAll cs).mode ≠ .stuck) :
    s.mode ≠ .stuck :=
  fun stuck => unstuck (by rw [feedAll_of_stuck stuck]; exact stuck)

/-- Induction on the characters of a text that can be read. -/
theorem feedAll_induction {P : List Char → Scanner → Prop} (nil : P [] initial)
    (snoc : ∀ cs c, P cs (initial.feedAll cs) → ((initial.feedAll cs).feed c).mode ≠ .stuck →
      P (cs ++ [c]) ((initial.feedAll cs).feed c))
    (cs : List Char) (unstuck : (initial.feedAll cs).mode ≠ .stuck) :
    P cs (initial.feedAll cs) := by
  induction cs using List.reverseRecOn with
  | nil => exact nil
  | append_singleton cs c ih =>
      rw [feedAll_append] at unstuck ⊢
      exact snoc cs c (ih (unstuck_of_feedAll unstuck)) unstuck

/-- Settling adds at most the token being read. -/
theorem lexemes_settle (s : Scanner) :
    s.settle.lexemes = s.lexemes ∨
      (s.mode.inToken = true ∧ ∃ token : Token,
        (token.isOpening = false ∧ token.isClosing = false) ∧
          s.settle.lexemes = ⟨token, s.start, s.startOffset, s.offset⟩ :: s.lexemes) := by
  unfold settle
  cases s.mode with
  | name text => exact .inr ⟨rfl, _, ⟨rfl, rfl⟩, rfl⟩
  | emptyQuotes => exact .inr ⟨rfl, _, ⟨rfl, rfl⟩, rfl⟩
  | number text =>
      dsimp only
      cases found : Token.ofNumber? text.reverse with
      | some token => exact .inr ⟨rfl, _, Token.inert_ofNumber? found, rfl⟩
      | none => exact .inl rfl
  | _ => exact .inl rfl

theorem inToken_settle (s : Scanner) : s.settle.mode.inToken = false := by
  unfold settle
  cases s.mode with
  | number text =>
      dsimp only
      cases Token.ofNumber? text.reverse with
      | some token => rfl
      | none => rfl
  | _ => rfl

theorem offset_feed {s : Scanner} {c : Char} (unstuck : (s.feed c).mode ≠ .stuck) :
    (s.feed c).offset = s.offset + c.utf8Size := by
  cases s.move_feed c with
  | stuck mode => exact absurd mode unstuck
  | _ => assumption

theorem offset_feedAll (cs : List Char) (unstuck : (initial.feedAll cs).mode ≠ .stuck) :
    (initial.feedAll cs).offset = byteLength cs := by
  refine feedAll_induction (P := fun cs s => s.offset = byteLength cs) rfl ?_ cs unstuck
  intro cs c ih unstuck
  rw [offset_feed unstuck, ih, byteLength_append]
  simp

/-! ### Spans -/

/-- What a scanner has read since it stood at byte `o` and had read the lexemes
`before`. -/
structure Since (o : Nat) (before : List Lexeme) (s : Scanner) : Prop where
  lexemes : ∃ own, s.lexemes = own ++ before ∧
    ∀ ℓ ∈ own, o ≤ ℓ.start ∧ ℓ.start < ℓ.stop ∧ ℓ.stop ≤ s.offset
  offset : o ≤ s.offset
  pending : s.mode.inToken = true → o ≤ s.startOffset ∧ s.startOffset < s.offset

namespace Since

variable {o : Nat} {before : List Lexeme} {s : Scanner}

theorem settle (since : Since o before s) : Since o before s.settle := by
  obtain ⟨own, eq, spans⟩ := since.lexemes
  refine ⟨?_, s.offset_settle ▸ since.offset, ?_⟩
  · rw [s.offset_settle]
    obtain same | ⟨inToken, token, -, added⟩ := s.lexemes_settle
    · exact ⟨own, same.trans eq, spans⟩
    · have pending := since.pending inToken
      refine ⟨⟨token, s.start, s.startOffset, s.offset⟩ :: own, by rw [added, eq]; rfl, ?_⟩
      intro ℓ mem
      obtain rfl | mem := List.mem_cons.mp mem
      · exact ⟨pending.1, pending.2, Nat.le_refl _⟩
      · exact spans ℓ mem
  · intro inToken
    rw [s.inToken_settle] at inToken
    cases inToken

/-- One more lexeme has been read. -/
theorem push {s' : Scanner} {ℓ : Lexeme} (since : Since o before s)
    (lexemes : s'.lexemes = ℓ :: s.lexemes) (mode : s'.mode = .blank) (start : o ≤ ℓ.start)
    (span : ℓ.start < ℓ.stop) (stop : ℓ.stop = s'.offset) (offset : s.offset ≤ s'.offset) :
    Since o before s' := by
  obtain ⟨own, eq, spans⟩ := since.lexemes
  refine ⟨⟨ℓ :: own, by rw [lexemes, eq]; rfl, ?_⟩, Nat.le_trans since.offset offset, ?_⟩
  · intro other mem
    obtain rfl | mem := List.mem_cons.mp mem
    · exact ⟨start, span, Nat.le_of_eq stop⟩
    · obtain ⟨after, proper, inside⟩ := spans other mem
      exact ⟨after, proper, Nat.le_trans inside offset⟩
  · intro inToken
    rw [mode] at inToken
    cases inToken

/-- The same lexemes have been read. -/
theorem keep {s' : Scanner} (since : Since o before s) (lexemes : s'.lexemes = s.lexemes)
    (offset : s.offset ≤ s'.offset)
    (pending : s'.mode.inToken = true → o ≤ s'.startOffset ∧ s'.startOffset < s'.offset) :
    Since o before s' := by
  obtain ⟨own, eq, spans⟩ := since.lexemes
  refine ⟨⟨own, lexemes.trans eq, ?_⟩, Nat.le_trans since.offset offset, pending⟩
  intro other mem
  obtain ⟨after, proper, inside⟩ := spans other mem
  exact ⟨after, proper, Nat.le_trans inside offset⟩

theorem feed (since : Since o before s) (c : Char) (unstuck : (s.feed c).mode ≠ .stuck) :
    Since o before (s.feed c) := by
  have size : 0 < c.utf8Size := c.utf8Size_pos
  have settled := since.settle
  have here := since.offset
  have same := s.offset_settle
  cases s.move_feed c with
  | skip _ mode lexemes _ offset =>
      refine settled.keep lexemes (by omega) ?_
      intro inToken
      obtain mode | mode := mode
      · rw [mode] at inToken; cases inToken
      · rw [mode] at inToken; cases inToken
  | opens _ _ startOffset lexemes _ offset =>
      exact settled.keep lexemes (by omega) (fun _ => ⟨by omega, by omega⟩)
  | single _ token mode lexemes _ offset =>
      exact settled.push lexemes mode here (by dsimp only; omega) rfl (by omega)
  | continues before _ startOffset lexemes _ offset =>
      have pending := since.pending before
      exact since.keep lexemes (by omega) (fun _ => ⟨by omega, by omega⟩)
  | closes before token _ mode lexemes _ offset =>
      have pending := since.pending before
      exact since.push lexemes mode pending.1 (by dsimp only; omega) rfl (by omega)
  | stuck mode => exact absurd mode unstuck

theorem feedAll (since : Since o before s) (cs : List Char)
    (unstuck : (s.feedAll cs).mode ≠ .stuck) : Since o before (s.feedAll cs) := by
  induction cs generalizing s with
  | nil => exact since
  | cons c cs ih =>
      have next : (s.feed c).mode ≠ .stuck := unstuck_of_feedAll unstuck
      exact ih (since.feed c next) unstuck

end Since

/-- Where no token is being read, none has been read since. -/
theorem since_of_outside {s : Scanner} (outside : s.mode.inToken = false) :
    Since s.offset s.lexemes s where
  lexemes := ⟨[], rfl, fun _ mem => absurd mem List.not_mem_nil⟩
  offset := Nat.le_refl _
  pending := fun inToken => absurd inToken (by simp [outside])

/-- Whatever is read from the beginning of a token on lies there. -/
theorem Opens.since {s : Scanner} {c : Char} (opens : s.Opens c)
    (unstuck : (s.feed c).mode ≠ .stuck) : Since s.offset s.settle.lexemes (s.feed c) := by
  have settled : Since s.offset s.settle.lexemes s.settle :=
    s.offset_settle ▸ since_of_outside s.inToken_settle
  have eq : s.feed c = s.settle.feed c := by
    rw [opens.feed, feed_of_visible opens.settled opens.visible]
  rw [eq] at unstuck ⊢
  exact settled.feed c unstuck

/-! ### Origins -/

/-- Within `cs` a token begins at byte `o`, with the lexemes `earlier` before it. -/
def BeginsAt (cs : List Char) (o : Nat) (earlier : List Lexeme) : Prop :=
  ∃ before c after, cs = before ++ c :: after ∧ byteLength before = o ∧
    (initial.feedAll before).Opens c ∧ (initial.feedAll before).settle.lexemes = earlier

theorem BeginsAt.append {cs : List Char} {o : Nat} {earlier : List Lexeme}
    (origin : BeginsAt cs o earlier) (more : List Char) : BeginsAt (cs ++ more) o earlier := by
  obtain ⟨before, c, after, rfl, length, opens, lexemes⟩ := origin
  exact ⟨before, c, after ++ more, by simp, length, opens, lexemes⟩

/-- Every lexeme read so far, and the one being read, has an origin. -/
structure Rooted (cs : List Char) (s : Scanner) : Prop where
  lexemes : ∀ later ℓ earlier, s.lexemes = later ++ ℓ :: earlier → BeginsAt cs ℓ.start earlier
  pending : s.mode.inToken = true → BeginsAt cs s.startOffset s.lexemes

namespace Rooted

variable {cs : List Char} {s : Scanner}

/-- One more lexeme has been read. -/
theorem push {cs' : List Char} {lexemes : List Lexeme} {ℓ : Lexeme}
    (rooted : ∀ later ℓ earlier, lexemes = later ++ ℓ :: earlier → BeginsAt cs' ℓ.start earlier)
    (origin : BeginsAt cs' ℓ.start lexemes) :
    ∀ later other earlier, ℓ :: lexemes = later ++ other :: earlier →
      BeginsAt cs' other.start earlier := by
  intro later other earlier eq
  cases later with
  | nil =>
      obtain ⟨rfl, rfl⟩ := List.cons.inj eq
      exact origin
  | cons _ later => exact rooted later other earlier (List.cons.inj eq).2

theorem settle (rooted : Rooted cs s) :
    ∀ later ℓ earlier, s.settle.lexemes = later ++ ℓ :: earlier → BeginsAt cs ℓ.start earlier := by
  obtain same | ⟨inToken, token, -, added⟩ := s.lexemes_settle
  · rw [same]
    exact rooted.lexemes
  · rw [added]
    exact push rooted.lexemes (rooted.pending inToken)

/-- Reading one more character. -/
theorem feed {cs : List Char} {c : Char} (rooted : Rooted cs (initial.feedAll cs))
    (unstuck : ((initial.feedAll cs).feed c).mode ≠ .stuck) :
    Rooted (cs ++ [c]) ((initial.feedAll cs).feed c) := by
  have before : (initial.feedAll cs).mode ≠ .stuck := by
    change ((initial.feedAll cs).feedAll [c]).mode ≠ .stuck at unstuck
    exact unstuck_of_feedAll unstuck
  -- the last token may become a lexeme before the character is looked at
  have settled : ∀ later ℓ earlier, (initial.feedAll cs).settle.lexemes = later ++ ℓ :: earlier →
      BeginsAt (cs ++ [c]) ℓ.start earlier :=
    fun later ℓ earlier eq => (rooted.settle later ℓ earlier eq).append [c]
  have unsettled : ∀ later ℓ earlier, (initial.feedAll cs).lexemes = later ++ ℓ :: earlier →
      BeginsAt (cs ++ [c]) ℓ.start earlier :=
    fun later ℓ earlier eq => (rooted.lexemes later ℓ earlier eq).append [c]
  have fresh (opens : (initial.feedAll cs).Opens c) :
      BeginsAt (cs ++ [c]) (initial.feedAll cs).offset (initial.feedAll cs).settle.lexemes :=
    ⟨cs, c, [], rfl, (offset_feedAll cs before).symm, opens, rfl⟩
  cases (initial.feedAll cs).move_feed c with
  | skip _ mode lexemes _ _ =>
      refine ⟨lexemes ▸ settled, ?_⟩
      intro inToken
      obtain mode | mode := mode
      · rw [mode] at inToken; cases inToken
      · rw [mode] at inToken; cases inToken
  | opens opens _ startOffset lexemes _ _ =>
      refine ⟨lexemes ▸ settled, fun _ => ?_⟩
      rw [startOffset, lexemes]
      exact fresh opens
  | single opens token mode lexemes _ _ =>
      refine ⟨lexemes ▸ push settled (fresh opens), ?_⟩
      intro inToken
      rw [mode] at inToken
      cases inToken
  | continues before _ startOffset lexemes _ _ =>
      refine ⟨lexemes ▸ unsettled, fun _ => ?_⟩
      rw [startOffset, lexemes]
      exact (rooted.pending before).append [c]
  | closes before token _ mode lexemes _ _ =>
      refine ⟨lexemes ▸ push unsettled ((rooted.pending before).append [c]), ?_⟩
      intro inToken
      rw [mode] at inToken
      cases inToken
  | stuck mode => exact absurd mode unstuck

end Rooted

theorem rooted_feedAll (cs : List Char) (unstuck : (initial.feedAll cs).mode ≠ .stuck) :
    Rooted cs (initial.feedAll cs) := by
  refine feedAll_induction ⟨?_, ?_⟩ (fun _ _ => Rooted.feed) cs unstuck
  · intro later ℓ earlier eq
    cases later with
    | nil => cases eq
    | cons _ _ => cases eq
  · intro inToken
    cases inToken

/-- Every lexeme of a text that can be read has an origin. -/
theorem beginsAt_of_lex {cs : List Char} (complete : (lex cs).complete = true)
    {earlier later : List Lexeme} {ℓ : Lexeme} (split : (lex cs).lexemes = earlier ++ ℓ :: later) :
    BeginsAt cs ℓ.start earlier.reverse := by
  have unstuck := ((finish_complete _).mp complete).unstuck
  refine (rooted_feedAll cs unstuck).settle later.reverse ℓ earlier.reverse ?_
  rw [← List.reverse_reverse (initial.feedAll cs).settle.lexemes, ← lexemes_lex, split]
  simp

/-! ### Room -/

/-- An open bracket takes up room until it is closed. -/
def Level (s : Scanner) : Prop :=
  s.room + s.lexemes.countP (·.token.isOpening) =
    maxDepth + s.lexemes.countP (·.token.isClosing)

theorem countP_cons_toNat {α : Type} (p : α → Bool) (a : α) (l : List α) :
    (a :: l).countP p = l.countP p + (p a).toNat := by
  rw [List.countP_cons]
  cases p a with
  | true => rfl
  | false => rfl

namespace Level

variable {s s' : Scanner}

theorem push {ℓ : Lexeme} (level : s.Level) (lexemes : s'.lexemes = ℓ :: s.lexemes)
    (room : s'.room + ℓ.token.isOpening.toNat = s.room + ℓ.token.isClosing.toNat) :
    s'.Level := by
  unfold Level at level ⊢
  rw [lexemes, countP_cons_toNat, countP_cons_toNat]
  omega

theorem pushInert {ℓ : Lexeme} (level : s.Level) (lexemes : s'.lexemes = ℓ :: s.lexemes)
    (inert : ℓ.token.isOpening = false ∧ ℓ.token.isClosing = false) (room : s'.room = s.room) :
    s'.Level :=
  level.push lexemes (by rw [inert.1, inert.2, room])

theorem keep (level : s.Level) (lexemes : s'.lexemes = s.lexemes) (room : s'.room = s.room) :
    s'.Level := by
  unfold Level at level ⊢
  rw [lexemes, room]
  exact level

theorem settle (level : s.Level) : s.settle.Level := by
  obtain same | ⟨-, token, inert, added⟩ := s.lexemes_settle
  · exact level.keep same s.room_settle
  · exact level.pushInert added inert s.room_settle

theorem feed {c : Char} (level : s.Level) (unstuck : (s.feed c).mode ≠ .stuck) :
    (s.feed c).Level := by
  have settled := s.room_settle
  cases s.move_feed c with
  | skip _ _ lexemes room _ => exact level.settle.keep lexemes (room.trans settled.symm)
  | opens _ _ _ lexemes room _ => exact level.settle.keep lexemes (room.trans settled.symm)
  | single _ token _ lexemes room _ => exact level.settle.push lexemes (settled.symm ▸ room)
  | continues _ _ _ lexemes room _ => exact level.keep lexemes room
  | closes _ token inert _ lexemes room _ => exact level.pushInert lexemes inert room
  | stuck mode => exact absurd mode unstuck

end Level

theorem level_feedAll (cs : List Char) (unstuck : (initial.feedAll cs).mode ≠ .stuck) :
    (initial.feedAll cs).Level :=
  feedAll_induction (P := fun _ => Level) rfl (fun _ _ => Level.feed) cs unstuck

/-! ### Tokens that will be complete -/

/-- Whether a character can stand in a number. -/
def isNumeric (c : Char) : Bool :=
  ['0', '1', '2', '3', '4', '5', '6', '7', '8', '9', '-', '+', '.', 'e', 'E'].contains c

theorem isNumeric_of_isDigit {c : Char} (digit : c.isDigit = true) : isNumeric c = true := by
  simp only [Char.isDigit, Bool.and_eq_true, decide_eq_true_eq, ge_iff_le,
    UInt32.le_iff_toNat_le] at digit
  obtain ⟨low, high⟩ := digit
  rw [← Char.ofNat_toNat c]
  change 48 ≤ c.toNat at low
  change c.toNat ≤ 57 at high
  generalize c.toNat = n at low high
  have cases : n = 48 ∨ n = 49 ∨ n = 50 ∨ n = 51 ∨ n = 52 ∨ n = 53 ∨ n = 54 ∨ n = 55 ∨ n = 56 ∨
      n = 57 := by omega
  rcases cases with rfl | rfl | rfl | rfl | rfl | rfl | rfl | rfl | rfl | rfl <;> decide

/-- The parts around the last character of a kind. -/
theorem eq_of_splitLast {p : Char → Bool} {cs before after : List Char}
    (split : Token.splitLast p cs = some (before, after)) :
    ∃ c, p c = true ∧ cs = before ++ c :: after := by
  have whole := List.takeWhile_append_dropWhile (p := fun c => !p c) (l := cs.reverse)
  unfold Token.splitLast at split
  rw [List.span_eq_takeWhile_dropWhile] at split
  cases tail : cs.reverse.dropWhile (fun c => !p c) with
  | nil => rw [tail] at split; cases split
  | cons c rest =>
      rw [tail] at split whole
      cases split
      refine ⟨c, ?_, ?_⟩
      · have stops := List.head?_dropWhile_not (fun c => !p c) cs.reverse
        simpa [tail] using stops
      · have := congrArg List.reverse whole
        simpa using this.symm

/-- After its first character an integer literal has digits only. -/
theorem numeric_tail_of_isIntLiteral {c : Char} {cs : List Char}
    (literal : Token.isIntLiteral (c :: cs) = true) : ∀ d ∈ cs, isNumeric d = true := by
  unfold Token.isIntLiteral at literal
  split at literal
  · rename_i eq; cases eq; intro d mem; cases mem
  · rename_i eq
    cases eq
    intro d mem
    rw [List.mem_singleton.mp mem]
    rfl
  · cases literal
  · cases literal
  · cases literal
  · rename_i eq; cases eq
  · rename_i eq
    cases eq
    intro d mem
    exact isNumeric_of_isDigit (List.all_eq_true.mp literal d mem)

theorem numeric_tail_of_isDecimal {c : Char} {cs : List Char}
    (decimal : Token.isDecimal (c :: cs) = true) : ∀ d ∈ cs, isNumeric d = true := by
  unfold Token.isDecimal at decimal
  split at decimal
  · exact numeric_tail_of_isIntLiteral decimal
  · rename_i whole fraction split
    obtain ⟨point, isPoint, eq⟩ := eq_of_splitLast split
    simp only [Bool.and_eq_true, beq_iff_eq, List.all_eq_true] at decimal isPoint
    obtain ⟨⟨literal, -⟩, digits⟩ := decimal
    cases whole with
    | nil => cases literal
    | cons first whole =>
        obtain ⟨rfl, rfl⟩ := List.cons.inj eq
        intro d mem
        obtain mem | mem := List.mem_append.mp mem
        · exact numeric_tail_of_isIntLiteral literal d mem
        · obtain rfl | mem := List.mem_cons.mp mem
          · rw [isPoint]; rfl
          · exact isNumeric_of_isDigit (digits d mem)

theorem numeric_of_isExponent {cs : List Char} (exponent : Token.isExponent cs = true) :
    ∀ d ∈ cs, isNumeric d = true := by
  cases cs with
  | nil => cases exponent
  | cons c cs =>
      simp only [Token.isExponent, Bool.and_eq_true, Bool.or_eq_true, beq_iff_eq,
        decide_eq_true_eq, List.all_eq_true] at exponent
      obtain ⟨first, digits⟩ := exponent
      intro d mem
      obtain rfl | mem := List.mem_cons.mp mem
      · obtain (rfl | rfl) | ⟨low, high⟩ := first
        · rfl
        · rfl
        · apply isNumeric_of_isDigit
          simp only [Char.isDigit, Bool.and_eq_true, decide_eq_true_eq]
          exact ⟨UInt32.le_trans (by decide) low, UInt32.le_trans high (by decide)⟩
      · exact isNumeric_of_isDigit (digits d mem)

/-- After its first character a number has only characters that can stand in
one. -/
theorem numeric_tail_of_ofNumber? {c : Char} {cs : List Char} {token : Token}
    (found : Token.ofNumber? (c :: cs) = some token) : ∀ d ∈ cs, isNumeric d = true := by
  unfold Token.ofNumber? at found
  split at found
  · rename_i mantissa exponent split
    obtain ⟨mark, isMark, eq⟩ := eq_of_splitLast split
    split at found
    · rename_i valid
      simp only [Bool.and_eq_true] at valid
      cases mantissa with
      | nil => cases valid.1
      | cons first mantissa =>
          obtain ⟨rfl, rfl⟩ := List.cons.inj eq
          intro d mem
          obtain mem | mem := List.mem_append.mp mem
          · exact numeric_tail_of_isDecimal valid.1 d mem
          · obtain rfl | mem := List.mem_cons.mp mem
            · simp only [Token.isExponentMark, Bool.or_eq_true, beq_iff_eq] at isMark
              obtain rfl | rfl := isMark
              · rfl
              · rfl
            · exact numeric_of_isExponent valid.2 d mem
    · cases found
  · split at found
    · rename_i literal
      exact numeric_tail_of_isIntLiteral literal
    · split at found
      · rename_i decimal
        exact numeric_tail_of_isDecimal decimal
      · cases found

/-- A number being read will be one. -/
theorem number_of_settled {s : Scanner} {text rest : List Char} (mode : s.mode = .number text)
    (settled : (s.feedAll rest).Settled) :
    ∃ more token, Token.ofNumber? (text.reverse ++ more) = some token := by
  induction rest generalizing s text with
  | nil =>
      unfold Settled settle at settled
      simp only [feedAll_nil, mode] at settled
      cases found : Token.ofNumber? text.reverse with
      | some token => exact ⟨[], token, by rw [List.append_nil, found]⟩
      | none => rw [found] at settled; cases settled
  | cons c rest ih =>
      by_cases stops : Token.endsNumber c = true
      · cases found : Token.ofNumber? text.reverse with
        | some token => exact ⟨[], token, by rw [List.append_nil, found]⟩
        | none =>
            have stuck : (s.feed c).mode = .stuck := by
              simp only [feed, mode, if_pos stops, found]
              rfl
            exact absurd stuck (unstuck_of_feedAll settled.unstuck)
      · have goesOn : (s.feed c).mode = .number (c :: text) := by
          simp only [feed, mode, if_neg stops]
          rfl
        obtain ⟨more, token, found⟩ := ih goesOn settled
        refine ⟨c :: more, token, ?_⟩
        rw [← found, List.reverse_cons, List.append_assoc, List.singleton_append]

/-- A number that will be complete has only characters that can stand in one,
after its first. -/
theorem numeric_of_settled {s : Scanner} {c : Char} {text rest : List Char}
    (mode : s.mode = .number (c :: text)) (begun : text ≠ [])
    (settled : (s.feedAll rest).Settled) : isNumeric c = true := by
  obtain ⟨more, token, found⟩ := number_of_settled mode settled
  rw [List.reverse_cons, List.append_assoc, List.singleton_append] at found
  cases reversed : text.reverse with
  | nil => exact absurd (List.reverse_eq_nil_iff.mp reversed) begun
  | cons first others =>
      rw [reversed] at found
      exact numeric_tail_of_ofNumber? found c (by simp)

/-- A string being read will be one. -/
theorem string_of_settled {s : Scanner} {body rest : List Char} {escaped : Bool}
    (mode : s.mode = .quoted body escaped) (begun : body ≠ [])
    (settled : (s.feedAll rest).Settled) :
    ∃ more, ∃ ℓ ∈ (s.feedAll rest).settle.lexemes, ℓ.token = .string (body.reverse ++ more) := by
  induction rest generalizing s body escaped with
  | nil =>
      unfold Settled settle at settled
      rw [feedAll_nil, mode] at settled
      cases settled
  | cons c rest ih =>
      have unstuck : (s.feed c).mode ≠ .stuck := unstuck_of_feedAll settled.unstuck
      by_cases newline : (c == '\n') = true
      · have stuck : (s.feed c).mode = .stuck := by
          simp only [feed, mode, if_pos newline]
          rfl
        exact absurd stuck unstuck
      · by_cases closing : (c == '"' && !escaped) = true
        · have nonempty : body.isEmpty = false := by simpa using begun
          have closed : s.feed c = (s.extend .blank c).emit (.string body.reverse) := by
            simp only [feed, mode, if_neg newline, if_pos closing, nonempty]
            rfl
          have since : Since (s.feed c).offset (s.feed c).lexemes (s.feed c) :=
            since_of_outside (by rw [closed]; rfl)
          obtain ⟨own, eq, -⟩ := (since.feedAll rest settled.unstuck).settle.lexemes
          refine ⟨[], ⟨.string body.reverse, s.start, s.startOffset, s.offset + c.utf8Size⟩, ?_, ?_⟩
          · rw [feedAll_cons, eq, closed]
            exact List.mem_append_right own List.mem_cons_self
          · rw [List.append_nil]
        · have goesOn : (s.feed c).mode = .quoted (c :: body) (!escaped && c == '\\') := by
            simp only [feed, mode, if_neg newline, if_neg closing]
            rfl
          obtain ⟨more, ℓ, mem, token⟩ := ih goesOn (List.cons_ne_nil c body) settled
          refine ⟨c :: more, ℓ, mem, ?_⟩
          rw [token, List.reverse_cons, List.append_assoc, List.singleton_append]

end Scanner

end GraphQLStatics
