import GraphQLStatics.Proofs.DefinitionStarts

/-!
# The texts of runs

The text of a run is read like the run within the whole text: it has the same
tokens, and it has them at the same positions as long as blanks can stand for
what precedes the run.

## Main Definitions

* `nested`: every closing bracket closes an open one
* `Scanner.Seam`: a place that no token lies across
* `Scanner.Entry`: such a place outside brackets and comments
* `runsByTokens`: the runs that can be told from the tokens
* `Run.Whole`: a run that is cut neither out of a token nor out of brackets

## Main Statements

* `Scanner.filter_lexemes`: the lexemes between two seams
* `whole_of_mem_runs`: every run is whole unless a string holds a carriage return
  or a bracket is closed that is not open
* `lex_between`: the part of a text between two seams
* `lex_source`: the lexemes of the text of a run
-/

namespace GraphQLStatics

open Text

/-! ### Cutting at a byte -/

theorem Text.exists_byteLength_cons (c : Char) (a : List Char) :
    ∃ n, byteLength (c :: a) = n + 1 ∧ n + 1 - c.utf8Size = byteLength a := by
  have size := c.utf8Size_pos
  refine ⟨c.utf8Size + byteLength a - 1, ?_, by omega⟩
  simp only [byteLength_cons]
  omega

theorem Text.takeBytes_append (a b : List Char) : takeBytes (byteLength a) (a ++ b) = a := by
  induction a with
  | nil => cases b <;> rfl
  | cons c a ih =>
      obtain ⟨n, eq, rest⟩ := exists_byteLength_cons c a
      rw [eq, List.cons_append, takeBytes, rest, ih]

theorem Text.dropBytes_append (a b : List Char) : dropBytes (byteLength a) (a ++ b) = b := by
  induction a with
  | nil => cases b <;> rfl
  | cons c a ih =>
      obtain ⟨n, eq, rest⟩ := exists_byteLength_cons c a
      rw [eq, List.cons_append, dropBytes, rest, ih]

theorem Text.utf8ByteSize_ofList (cs : List Char) :
    (String.ofList cs).utf8ByteSize = byteLength cs := by
  induction cs with
  | nil => rfl
  | cons c cs ih => simp [ih]

theorem Text.byteLength_toList (text : String) : byteLength text.toList = text.utf8ByteSize := by
  rw [← utf8ByteSize_ofList, String.ofList_toList]

/-- Whether a lexeme lies between two bytes. -/
def Lexeme.liesWithin (start stop : Nat) (ℓ : Lexeme) : Bool :=
  start ≤ ℓ.start && ℓ.stop ≤ stop

/-! ### Brackets -/

/-- Every closing bracket closes one that is open, if `depth` are open before. -/
def nested (depth : Nat) : List Lexeme → Bool
  | [] => true
  | ℓ :: rest =>
    (!ℓ.token.isClosing || 0 < depth) &&
      nested (depth + ℓ.token.isOpening.toNat - ℓ.token.isClosing.toNat) rest

/-- The depth of a survey, by the brackets read. -/
theorem Survey.depth_readAll {v : Survey} {lexemes : List Lexeme}
    (brackets : nested v.depth lexemes = true) :
    (v.readAll lexemes).depth + lexemes.countP (·.token.isClosing) =
      v.depth + lexemes.countP (·.token.isOpening) := by
  induction lexemes generalizing v with
  | nil => rfl
  | cons ℓ rest ih =>
      simp only [nested, Bool.and_eq_true, Bool.or_eq_true, Bool.not_eq_true',
        decide_eq_true_eq] at brackets
      obtain ⟨closes, brackets⟩ := brackets
      have later := ih (v := v.read ℓ.token ℓ.start) brackets
      rw [Scanner.countP_cons_toNat, Scanner.countP_cons_toNat]
      change ((v.read ℓ.token ℓ.start).readAll rest).depth + _ = _
      have depth : (v.read ℓ.token ℓ.start).depth =
        v.depth + ℓ.token.isOpening.toNat - ℓ.token.isClosing.toNat := rfl
      obtain no | open_ := closes
      · simp only [no, Bool.toNat_false, Nat.sub_zero] at depth ⊢
        omega
      · have : ℓ.token.isClosing.toNat ≤ 1 := Bool.toNat_le _
        omega

/-- A definition begins with a lexeme outside all brackets. -/
theorem Survey.exists_of_mem_starts {lexemes : List Lexeme} {start : Nat} {kind : RunKind}
    (mem : (start, kind) ∈ (initial.readAll lexemes).starts) :
    ∃ earlier ℓ later, lexemes = earlier ++ ℓ :: later ∧ ℓ.start = start ∧
      (initial.readAll earlier).begins? ℓ.token = some kind := by
  induction lexemes using List.reverseRecOn with
  | nil => cases mem
  | append_singleton lexemes ℓ ih =>
      rw [readAll_append] at mem
      obtain mem | mem := List.mem_append.mp mem
      · rw [Option.mem_toList, Option.map_eq_some_iff] at mem
        obtain ⟨kind, begins, eq⟩ := mem
        cases eq
        exact ⟨lexemes, ℓ, [], rfl, rfl, begins⟩
      · obtain ⟨earlier, other, later, rfl, start, begins⟩ := ih mem
        exact ⟨earlier, other, later ++ [ℓ], by simp, start, begins⟩

theorem Survey.depth_of_begins {v : Survey} {token : Token} {kind : RunKind}
    (begins : v.begins? token = some kind) : v.depth = 0 := by
  unfold begins? at begins
  split at begins
  · assumption
  · cases begins

/-! ### Seams -/

namespace Scanner

/-- A text can be cut between `before` and `after`: no token lies across. -/
structure Seam (before after : List Char) : Prop where
  settled : (initial.feedAll before).Settled
  next : before = [] ∨ ∀ c rest, after = c :: rest → (initial.feedAll before).Opens c

/-- The end of a text that can be read. -/
theorem seam_end {cs : List Char} (settled : (initial.feedAll cs).Settled) : Seam cs [] :=
  ⟨settled, .inr fun _ _ eq => by cases eq⟩

/-- Where a token begins. -/
theorem Opens.seam {before after : List Char} {c : Char}
    (opens : (initial.feedAll before).Opens c) : Seam before (c :: after) := by
  refine ⟨opens.settled, .inr ?_⟩
  intro d rest eq
  cases eq
  exact opens

/-- A seam outside brackets and comments. -/
structure Entry (before after : List Char) : Prop extends Seam before after where
  room : (initial.feedAll before).room = maxDepth
  outside : (initial.feedAll before).mode ≠ .comment

theorem entry_start (cs : List Char) : Entry [] cs :=
  ⟨⟨rfl, .inl rfl⟩, rfl, Mode.noConfusion⟩

namespace Seam

variable {before middle after : List Char}

/-- What follows a seam is read as if nothing preceded it. -/
theorem alike {R : Position → Position → Prop} (drift : Drift R)
    (seam : Seam before (middle ++ after)) {t : Scanner} (mode : t.mode = .blank)
    (lexemes : t.lexemes = []) (room : (initial.feedAll before).room = t.room)
    (position : R (initial.feedAll before).position t.position) :
    Alike R (initial.feedAll before).settle.lexemes ((initial.feedAll before).feedAll middle).settle
      (t.feedAll middle).settle := by
  have settled : Alike R (initial.feedAll before).settle.lexemes (initial.feedAll before).settle
      t := {
    mode := seam.settled.trans mode.symm
    room := (initial.feedAll before).room_settle.trans room
    position := (initial.feedAll before).position_settle ▸ position
    start := fun inToken => by rw [inToken_settle] at inToken; cases inToken
    lexemes := ⟨[], rfl, by rw [lexemes]; exact .nil⟩ }
  -- the start of the text is a seam too, though no token need begin there
  cases middle with
  | nil => rw [settle_of_blank (s := t.feedAll []) mode]; exact settled
  | cons c middle =>
      obtain rfl | opens := seam.next
      · exact (settled.feedAll drift (c :: middle)).settle
      · have opens := opens c (middle ++ after) rfl
        exact ((opens.alike drift mode lexemes room position).feedAll drift middle).settle

/-- What follows a seam lies after it. -/
theorem since (seam : Seam before (middle ++ after))
    (unstuck : ((initial.feedAll before).feedAll middle).mode ≠ .stuck) :
    Since (byteLength before) (initial.feedAll before).settle.lexemes
      ((initial.feedAll before).feedAll middle).settle := by
  have offset := offset_feedAll before seam.settled.unstuck
  cases middle with
  | nil =>
      have since := since_of_outside (initial.feedAll before).inToken_settle
      rwa [offset_settle, offset] at since
  | cons c middle =>
      have next : ((initial.feedAll before).feed c).mode ≠ .stuck := unstuck_of_feedAll unstuck
      obtain rfl | opens := seam.next
      · have since : Since 0 [] initial := since_of_outside (s := initial) rfl
        exact ((since.feed c next).feedAll middle unstuck).settle
      · have opens := opens c (middle ++ after) rfl
        exact (((offset ▸ opens.since next).feedAll middle unstuck)).settle

end Seam

/-- The lexemes read before a seam lie before it. -/
theorem Seam.span {before after : List Char} (seam : Seam before after) :
    ∀ ℓ ∈ (initial.feedAll before).settle.lexemes,
      ℓ.start < ℓ.stop ∧ ℓ.stop ≤ byteLength before := by
  have unstuck := seam.settled.unstuck
  have since : Since 0 [] initial := since_of_outside (s := initial) rfl
  obtain ⟨own, eq, spans⟩ := (since.feedAll before unstuck).settle.lexemes
  rw [offset_settle, offset_feedAll before unstuck] at spans
  intro ℓ mem
  rw [eq, List.append_nil] at mem
  exact (spans ℓ mem).2

/-- The lexemes that lie between two seams, latest first. -/
theorem filter_lexemes {before middle after : List Char} (seam : Seam before (middle ++ after))
    (stop : Seam (before ++ middle) after)
    (complete : (initial.feedAll (before ++ middle ++ after)).Settled) {own : List Lexeme}
    (lexemes : (initial.feedAll (before ++ middle)).settle.lexemes =
      own ++ (initial.feedAll before).settle.lexemes) :
    (initial.feedAll (before ++ middle ++ after)).settle.lexemes.filter
        (Lexeme.liesWithin (byteLength before) (byteLength (before ++ middle))) = own := by
  have last : Seam (before ++ middle) (after ++ []) := by rwa [List.append_nil]
  rw [feedAll_append] at complete ⊢
  obtain ⟨later, eq, laterSpans⟩ := (last.since complete.unstuck).lexemes
  have inner := stop.settled
  rw [feedAll_append] at inner
  obtain ⟨own', eq', ownSpans⟩ := (seam.since inner.unstuck).lexemes
  rw [← feedAll_append, lexemes] at eq'
  cases List.append_cancel_right eq'
  rw [← feedAll_append, offset_settle, offset_feedAll _ stop.settled.unstuck] at ownSpans
  have noneLater : later.filter
      (Lexeme.liesWithin (byteLength before) (byteLength (before ++ middle))) = [] := by
    refine List.filter_eq_nil_iff.mpr fun ℓ mem => ?_
    have span := laterSpans ℓ mem
    simp only [Lexeme.liesWithin, Bool.and_eq_true, decide_eq_true_eq]
    omega
  have allOwn : own.filter
      (Lexeme.liesWithin (byteLength before) (byteLength (before ++ middle))) = own := by
    refine List.filter_eq_self.mpr fun ℓ mem => ?_
    have span := ownSpans ℓ mem
    simp only [Lexeme.liesWithin, Bool.and_eq_true, decide_eq_true_eq]
    omega
  have noneEarlier : (initial.feedAll before).settle.lexemes.filter
      (Lexeme.liesWithin (byteLength before) (byteLength (before ++ middle))) = [] := by
    refine List.filter_eq_nil_iff.mpr fun ℓ mem => ?_
    have span := seam.span ℓ mem
    simp only [Lexeme.liesWithin, Bool.and_eq_true, decide_eq_true_eq]
    omega
  rw [eq, lexemes, List.filter_append, List.filter_append, noneLater, allOwn, noneEarlier,
    List.nil_append, List.append_nil]

/-- The lexemes that begin before a seam are those read before it. -/
theorem filter_start_lt {before after : List Char} (seam : Seam before after)
    (complete : (initial.feedAll (before ++ after)).Settled) :
    (initial.feedAll (before ++ after)).settle.lexemes.filter (·.start < byteLength before) =
      (initial.feedAll before).settle.lexemes := by
  have last : Seam before (after ++ []) := by rwa [List.append_nil]
  rw [feedAll_append] at complete ⊢
  obtain ⟨later, eq, laterSpans⟩ := (last.since complete.unstuck).lexemes
  have noneLater : later.filter (·.start < byteLength before) = [] := by
    refine List.filter_eq_nil_iff.mpr fun ℓ mem => ?_
    have span := laterSpans ℓ mem
    simp only [decide_eq_true_eq]
    omega
  have allEarlier : (initial.feedAll before).settle.lexemes.filter (·.start < byteLength before) =
      (initial.feedAll before).settle.lexemes := by
    refine List.filter_eq_self.mpr fun ℓ mem => ?_
    have span := seam.span ℓ mem
    simp only [decide_eq_true_eq]
    omega
  rw [eq, List.filter_append, noneLater, allEarlier, List.nil_append]

end Scanner

/-! ### Blanks -/

namespace Scanner

/-- The position after a blank that stands for a character. -/
def pastBlank (p : Position) (c : Char) : Position :=
  if c == '\n' then p.nextLine
  else if c == '\t' then p.right 8
  else if c == '\r' || c == '\uFEFF' then p
  else p.right 1

theorem afterBlank?_blanked (p : Position) (c : Char) :
    afterBlank? p (blanked c) = some (pastBlank p c) := by
  by_cases newline : c = '\n'
  · cases newline; rfl
  · by_cases tab : c = '\t'
    · cases tab; rfl
    · by_cases return_ : c = '\r'
      · cases return_; rfl
      · by_cases mark : c = '\uFEFF'
        · cases mark; rfl
        · simp [blanked, pastBlank, newline, tab, return_, mark, afterBlank?]

theorem feed_blanked {t : Scanner} (mode : t.mode = .blank) (c : Char) :
    t.feed (blanked c) =
      { t with position := pastBlank t.position c, offset := t.offset + (blanked c).utf8Size } := by
  have visible : (blanked c == '#') = false := by
    unfold blanked
    split
    · rename_i special
      refine beq_false_of_ne ?_
      rintro rfl
      cases special
    · rfl
  simp [feed, mode, feedBlank, visible, afterBlank?_blanked]

/-- Blanks hold no tokens. -/
theorem feedAll_blanked {t : Scanner} (mode : t.mode = .blank) (cs : List Char) :
    (t.feedAll (cs.map blanked)).mode = .blank ∧ (t.feedAll (cs.map blanked)).lexemes = t.lexemes ∧
      (t.feedAll (cs.map blanked)).room = t.room := by
  induction cs generalizing t with
  | nil => exact ⟨mode, rfl, rfl⟩
  | cons c cs ih =>
      rw [List.map_cons, feedAll_cons, feed_blanked mode]
      exact ih mode

end Scanner

/-! ### Runs -/

/-- Runs begin and end where definitions begin, or where the text does. -/
theorem mem_runsFrom {total start : Nat} {kind : RunKind} {rest : List (Nat × RunKind)} {run : Run}
    (mem : run ∈ runsFrom total start kind rest) :
    (run.start = start ∨ ∃ kind, (run.start, kind) ∈ rest) ∧
      (run.stop = total ∨ ∃ kind, (run.stop, kind) ∈ rest) := by
  induction rest generalizing start kind with
  | nil =>
      cases List.mem_singleton.mp mem
      exact ⟨.inl rfl, .inl rfl⟩
  | cons next rest ih =>
      obtain ⟨next, other⟩ := next
      have later {o : Nat} (found : ∃ kind, (o, kind) ∈ rest) :
          ∃ kind, (o, kind) ∈ (next, other) :: rest :=
        found.imp fun _ mem => List.mem_cons_of_mem _ mem
      unfold runsFrom at mem
      split at mem
      · obtain ⟨first, last⟩ := ih mem
        exact ⟨first.imp_right later, last.imp_right later⟩
      · obtain rfl | mem := List.mem_cons.mp mem
        · exact ⟨.inl rfl, .inr ⟨other, List.mem_cons_self⟩⟩
        · obtain ⟨first, last⟩ := ih mem
          refine ⟨.inr ?_, last.imp_right later⟩
          obtain rfl | found := first
          · exact ⟨other, List.mem_cons_self⟩
          · exact later found

/-- The runs of a text of so many bytes, by where definitions begin. -/
def runsOfStarts (total : Nat) : List (Nat × RunKind) → List Run
  | [] => []
  | (_, kind) :: rest => runsFrom total 0 kind rest

theorem runs_eq_runsOfStarts (cs : List Char) :
    runs cs = runsOfStarts (byteLength cs) (definitionStarts cs) := by
  unfold runs
  cases definitionStarts cs with
  | nil => rfl
  | cons first rest => rfl

theorem mem_runsOfStarts {total : Nat} {starts : List (Nat × RunKind)} {run : Run}
    (mem : run ∈ runsOfStarts total starts) :
    (run.start = 0 ∨ ∃ kind, (run.start, kind) ∈ starts) ∧
      (run.stop = total ∨ ∃ kind, (run.stop, kind) ∈ starts) := by
  cases starts with
  | nil => cases mem
  | cons first rest =>
      obtain ⟨start, stop⟩ := mem_runsFrom mem
      have later {o : Nat} (found : ∃ kind, (o, kind) ∈ rest) :
          ∃ kind, (o, kind) ∈ first :: rest :=
        found.imp fun _ mem => List.mem_cons_of_mem _ mem
      exact ⟨start.imp_right later, stop.imp_right later⟩

theorem mem_runs {cs : List Char} {run : Run} (mem : run ∈ runs cs) :
    (run.start = 0 ∨ ∃ kind, (run.start, kind) ∈ definitionStarts cs) ∧
      (run.stop = byteLength cs ∨ ∃ kind, (run.stop, kind) ∈ definitionStarts cs) :=
  mem_runsOfStarts (runs_eq_runsOfStarts cs ▸ mem)

/-- The runs of a text that can be told from its tokens. -/
def runsByTokens (cs : List Char) : List Run :=
  runsOfStarts (byteLength cs) (Survey.initial.readAll (lex cs).lexemes).starts.reverse

/-- The runs are those that can be told from the tokens, unless a string holds a
carriage return. -/
theorem runs_eq_runsByTokens {cs : List Char} (complete : (lex cs).complete = true)
    (plain : ∀ ℓ ∈ (lex cs).lexemes, ℓ.token.holdsReturn = false) :
    runs cs = runsByTokens cs := by
  rw [runs_eq_runsOfStarts, definitionStarts_eq complete plain, runsByTokens]

/-! ### Whole runs -/

/-- The run is cut neither out of a token nor out of brackets: it begins and ends
where a token does or where the text does, and as many brackets are opened before it
as are closed. -/
structure Run.Whole (run : Run) (cs : List Char) : Prop where
  start : run.start = 0 ∨ ∃ ℓ ∈ (lex cs).lexemes, ℓ.start = run.start
  stop : run.stop = byteLength cs ∨ ∃ ℓ ∈ (lex cs).lexemes, ℓ.start = run.stop
  brackets : ((lex cs).lexemes.filter (·.start < run.start)).countP (·.token.isOpening) =
    ((lex cs).lexemes.filter (·.start < run.start)).countP (·.token.isClosing)

instance (run : Run) (cs : List Char) : Decidable (run.Whole cs) :=
  decidable_of_iff _ ⟨fun ⟨start, stop, brackets⟩ => Run.Whole.mk start stop brackets,
    fun whole => And.intro whole.start (And.intro whole.stop whole.brackets)⟩

theorem nested_of_append {depth : Nat} {a b : List Lexeme}
    (brackets : nested depth (a ++ b) = true) : nested depth a = true := by
  induction a generalizing depth with
  | nil => rfl
  | cons ℓ a ih =>
      simp only [List.cons_append, nested, Bool.and_eq_true] at brackets ⊢
      exact ⟨brackets.1, ih brackets.2⟩

/-- The lexemes that begin before another one are those that precede it. -/
theorem filter_start_lt_of_split {cs : List Char} (complete : (lex cs).complete = true)
    {earlier later : List Lexeme} {ℓ : Lexeme} (split : (lex cs).lexemes = earlier ++ ℓ :: later) :
    (lex cs).lexemes.filter (·.start < ℓ.start) = earlier := by
  obtain ⟨before, c, after, eq, length, opens, read⟩ := Scanner.beginsAt_of_lex complete split
  have settled := (Scanner.finish_complete _).mp complete
  rw [eq] at settled
  have seam : Scanner.Seam before (c :: after) := opens.seam
  have filtered := Scanner.filter_start_lt seam settled
  rw [read, length, ← eq] at filtered
  rw [Scanner.lexemes_lex, List.filter_reverse, filtered, List.reverse_reverse]

/-- Where a definition can be told to begin, as many brackets are opened as are
closed. -/
theorem countP_of_mem_starts {cs : List Char} (complete : (lex cs).complete = true)
    (brackets : nested 0 (lex cs).lexemes = true) {o : Nat} {kind : RunKind}
    (mem : (o, kind) ∈ (Survey.initial.readAll (lex cs).lexemes).starts) :
    ((lex cs).lexemes.filter (·.start < o)).countP (·.token.isOpening) =
      ((lex cs).lexemes.filter (·.start < o)).countP (·.token.isClosing) := by
  obtain ⟨earlier, ℓ, later, split, rfl, begins⟩ := Survey.exists_of_mem_starts mem
  rw [filter_start_lt_of_split complete split]
  rw [split] at brackets
  have depth := Survey.depth_readAll (v := .initial) (nested_of_append brackets)
  rw [Survey.depth_of_begins begins] at depth
  change 0 + _ = 0 + _ at depth
  omega

/-- The runs that can be told from the tokens are whole, if brackets are nested. -/
theorem whole_of_mem_runsByTokens {cs : List Char} {run : Run}
    (complete : (lex cs).complete = true) (brackets : nested 0 (lex cs).lexemes = true)
    (mem : run ∈ runsByTokens cs) : run.Whole cs := by
  obtain ⟨first, last⟩ := mem_runsOfStarts mem
  simp only [List.mem_reverse] at first last
  have border {o : Nat} (found : ∃ kind, (o, kind) ∈
      (Survey.initial.readAll (lex cs).lexemes).starts) : ∃ ℓ ∈ (lex cs).lexemes, ℓ.start = o := by
    obtain ⟨kind, mem⟩ := found
    obtain ⟨earlier, ℓ, later, split, start, -⟩ := Survey.exists_of_mem_starts mem
    exact ⟨ℓ, by simp [split], start⟩
  refine ⟨first.imp_right border, last.imp_right border, ?_⟩
  obtain zero | ⟨kind, found⟩ := first
  · simp [zero]
  · exact countP_of_mem_starts complete brackets found

/-- A run is whole unless a string holds a carriage return or a bracket is closed
that is not open. -/
theorem whole_of_mem_runs {cs : List Char} {run : Run} (complete : (lex cs).complete = true)
    (plain : ∀ ℓ ∈ (lex cs).lexemes, ℓ.token.holdsReturn = false)
    (brackets : nested 0 (lex cs).lexemes = true) (mem : run ∈ runs cs) : run.Whole cs :=
  whole_of_mem_runsByTokens complete brackets (runs_eq_runsByTokens complete plain ▸ mem)

/-- A whole run begins at an entry. -/
theorem Run.Whole.entry {cs : List Char} {run : Run} (whole : run.Whole cs)
    (complete : (lex cs).complete = true) :
    ∃ before after, cs = before ++ after ∧ byteLength before = run.start ∧
      Scanner.Entry before after := by
  obtain zero | ⟨ℓ, mem, start⟩ := whole.start
  · exact ⟨[], cs, rfl, zero.symm, Scanner.entry_start cs⟩
  · obtain ⟨earlier, later, split⟩ := List.append_of_mem mem
    obtain ⟨before, c, after, eq, length, opens, read⟩ := Scanner.beginsAt_of_lex complete split
    refine ⟨before, c :: after, eq, length.trans start, opens.seam, ?_, opens.outside⟩
    -- brackets that are open take up room in the scanner
    have brackets := whole.brackets
    rw [← start, filter_start_lt_of_split complete split] at brackets
    have level := (Scanner.level_feedAll before opens.settled.unstuck).settle
    unfold Scanner.Level at level
    rw [read, List.countP_reverse, List.countP_reverse, Scanner.room_settle] at level
    omega

/-- A whole run ends at a seam. -/
theorem Run.Whole.seam {cs : List Char} {run : Run} (whole : run.Whole cs)
    (complete : (lex cs).complete = true) :
    ∃ before after, cs = before ++ after ∧ byteLength before = run.stop ∧
      Scanner.Seam before after := by
  obtain total | ⟨ℓ, mem, start⟩ := whole.stop
  · have settled := (Scanner.finish_complete _).mp complete
    exact ⟨cs, [], (List.append_nil cs).symm, total.symm, Scanner.seam_end settled⟩
  · obtain ⟨earlier, later, split⟩ := List.append_of_mem mem
    obtain ⟨before, c, after, eq, length, opens, -⟩ := Scanner.beginsAt_of_lex complete split
    exact ⟨before, c :: after, eq, length.trans start, opens.seam⟩

/-- Whether a lexeme lies within a run. -/
def Run.holds (run : Run) (ℓ : Lexeme) : Bool :=
  ℓ.liesWithin run.start run.stop

/-- What lies between two seams is read alike after blanks. -/
theorem lex_between {R : Position → Position → Prop} (drift : Drift R)
    {before middle after : List Char} (start : Scanner.Entry before (middle ++ after))
    (stop : Scanner.Seam (before ++ middle) after)
    (complete : (lex (before ++ middle ++ after)).complete = true)
    (position : R (Scanner.initial.feedAll before).position
      (Scanner.initial.feedAll (before.map blanked)).position) :
    (lex (before.map blanked ++ middle)).complete = true ∧
      List.Forall₂ (Lexeme.Alike R)
        ((lex (before ++ middle ++ after)).lexemes.filter
          (Lexeme.liesWithin (byteLength before) (byteLength (before ++ middle))))
        (lex (before.map blanked ++ middle)).lexemes := by
  obtain ⟨mode, lexemes, sameRoom⟩ := Scanner.feedAll_blanked (t := .initial) rfl before
  have alike := start.alike drift mode lexemes (start.room.trans sameRoom.symm) position
  rw [← Scanner.feedAll_append, ← Scanner.feedAll_append] at alike
  obtain ⟨own, split, same⟩ := alike.lexemes
  have settled := (Scanner.finish_complete _).mp complete
  refine ⟨(Scanner.finish_complete _).mpr (alike.mode.symm.trans stop.settled), ?_⟩
  rw [Scanner.lexemes_lex, Scanner.lexemes_lex, List.filter_reverse,
    Scanner.filter_lexemes start.toSeam stop settled split]
  exact List.rel_reverse same

/-- The text of a whole run has the lexemes that lie within the run. -/
theorem lex_source {R : Position → Position → Prop} (drift : Drift R) {cs : List Char} {run : Run}
    (complete : (lex cs).complete = true) (whole : run.Whole cs)
    (position : R (Scanner.initial.feedAll (takeBytes run.start cs)).position
      (Scanner.initial.feedAll ((takeBytes run.start cs).map blanked)).position) :
    (lex (run.source cs)).complete = true ∧
      List.Forall₂ (Lexeme.Alike R) ((lex cs).lexemes.filter run.holds)
        (lex (run.source cs)).lexemes := by
  have settled := (Scanner.finish_complete _).mp complete
  obtain ⟨before, after, eq, length, start⟩ := whole.entry complete
  obtain ⟨before', after', eq', length', stop⟩ := whole.seam complete
  have taken : takeBytes run.start cs = before := by rw [← length, eq, takeBytes_append]
  have dropped : dropBytes run.start cs = after := by rw [← length, eq, dropBytes_append]
  rw [taken] at position
  unfold Run.source
  rw [taken, dropped]
  obtain ⟨middle, rfl⟩ | ⟨beyond, rfl⟩ :=
    List.prefix_or_prefix_of_prefix ⟨after, eq.symm⟩ ⟨after', eq'.symm⟩
  · have rest : after = middle ++ after' := by
      rw [eq, List.append_assoc] at eq'
      exact List.append_cancel_left eq'
    have size : run.stop - run.start = byteLength middle := by
      rw [← length, ← length', byteLength_append, Nat.add_sub_cancel_left]
    rw [size, rest, takeBytes_append]
    rw [rest] at start
    rw [eq'] at complete ⊢
    have read := lex_between drift start stop complete position
    rw [length, length'] at read
    exact read
  · -- there is nothing between the ends of an empty run
    have size : run.stop - run.start = 0 := by
      rw [← length, ← length', byteLength_append]
      omega
    obtain ⟨mode, lexemes, -⟩ :=
      Scanner.feedAll_blanked (t := .initial) rfl (before' ++ beyond)
    have blank : lex ((before' ++ beyond).map blanked) =
        ⟨[], (Scanner.initial.feedAll ((before' ++ beyond).map blanked)).position, true⟩ := by
      unfold lex Scanner.finish
      rw [mode, lexemes]
      rfl
    have none : (lex cs).lexemes.filter run.holds = [] := by
      refine List.filter_eq_nil_iff.mpr fun ℓ mem => ?_
      have span := (Scanner.seam_end settled).span ℓ (by
        rwa [← List.mem_reverse, ← Scanner.lexemes_lex])
      simp only [Run.holds, Lexeme.liesWithin, Bool.and_eq_true, decide_eq_true_eq]
      omega
    rw [size, takeBytes, List.append_nil, blank, none]
    exact ⟨rfl, .nil⟩

end GraphQLStatics
