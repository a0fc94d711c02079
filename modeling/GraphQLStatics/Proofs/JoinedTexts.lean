import GraphQLStatics.Proofs.TokenShapes

/-!
# Texts joined by line feeds

A line feed ends every token, and balanced brackets leave as much room as there
was before them.  So texts that can be read one by one can be read in a row, and
the tokens of the whole are theirs.

## Main Statements

* `lex_joined`: the tokens of joined texts
* `stop_le_start`: lexemes are in order
* `filter_holds`: the lexemes within a run
-/

namespace GraphQLStatics

open Text

/-! ### Tokens of joined texts -/

theorem tokens_eq_of_alike {a b : List Lexeme}
    (alike : List.Forall₂ (Lexeme.Alike fun _ _ => True) a b) : tokens a = tokens b := by
  induction alike with
  | nil => rfl
  | cons head _ ih => exact congrArg₂ List.cons head.token ih

/-- Balanced brackets leave all the room there was. -/
theorem room_of_balanced {cs : List Char} (complete : (lex cs).complete = true)
    (balanced : Balanced (tokens (lex cs).lexemes)) :
    (Scanner.initial.feedAll cs).room = Scanner.maxDepth := by
  have settled := (Scanner.finish_complete _).mp complete
  have level := (Scanner.level_feedAll cs settled.unstuck).settle
  have counts := balanced.countP
  rw [Scanner.lexemes_lex, tokens, List.map_reverse, List.countP_reverse, List.countP_reverse,
    List.countP_map, List.countP_map] at counts
  unfold Scanner.Level at level
  rw [Scanner.room_settle] at level
  change List.countP (fun ℓ : Lexeme => ℓ.token.isOpening) _ =
    List.countP (fun ℓ : Lexeme => ℓ.token.isClosing) _ at counts
  omega

namespace Scanner

/-- A text is read between tokens as it is read by itself. -/
theorem feedAll_between {s : Scanner} (mode : s.mode = .blank) (room : s.room = maxDepth)
    {cs : List Char} (complete : (lex cs).complete = true)
    (balanced : Balanced (tokens (lex cs).lexemes)) :
    (s.feedAll cs).Settled ∧ (s.feedAll cs).room = maxDepth ∧
      tokens (s.feedAll cs).settle.lexemes.reverse =
        tokens s.lexemes.reverse ++ tokens (lex cs).lexemes := by
  have before : Alike (fun _ _ => True) s.lexemes s initial := {
    mode := mode
    room := room
    position := trivial
    start := fun _ => trivial
    lexemes := ⟨[], rfl, .nil⟩ }
  have after := before.feedAll drift_any cs
  obtain ⟨own, eq, same⟩ := after.settle.lexemes
  refine ⟨after.settle.mode.trans ((finish_complete _).mp complete),
    after.room.trans (room_of_balanced complete balanced), ?_⟩
  rw [eq, lexemes_lex, List.reverse_append, tokens, List.map_append]
  exact congrArg _ (tokens_eq_of_alike (List.rel_reverse same))

/-- Texts in a row are read as they are read by themselves. -/
theorem feedAll_joined {s : Scanner} (mode : s.mode = .blank) (room : s.room = maxDepth)
    {texts : List (List Char)} (complete : ∀ cs ∈ texts, (lex cs).complete = true)
    (balanced : ∀ cs ∈ texts, Balanced (tokens (lex cs).lexemes)) :
    (s.feedAll (['\n'].intercalate texts)).Settled ∧
      tokens (s.feedAll (['\n'].intercalate texts)).settle.lexemes.reverse =
        tokens s.lexemes.reverse ++ texts.flatMap fun cs => tokens (lex cs).lexemes := by
  induction texts generalizing s with
  | nil =>
      have same := settle_of_blank mode
      exact ⟨by rw [List.intercalate_nil, feedAll_nil, Settled, same, mode], by simp [same]⟩
  | cons cs texts ih =>
      obtain ⟨settled, room, lexemes⟩ := feedAll_between mode room (complete cs List.mem_cons_self)
        (balanced cs List.mem_cons_self)
      cases texts with
      | nil =>
          rw [List.intercalate_singleton, List.flatMap_singleton]
          exact ⟨settled, lexemes⟩
      | cons next texts =>
          -- the line feed settles the scanner, and leaves it between tokens
          rw [List.intercalate_cons_cons, List.append_assoc, feedAll_append,
            List.singleton_append, feedAll_cons, feed_lineFeed settled]
          obtain ⟨settledAll, lexemesAll⟩ := ih (s := { (s.feedAll cs).settle with
            position := (s.feedAll cs).position.nextLine, offset := (s.feedAll cs).offset + 1 })
            settled ((room_settle _).trans room)
            (fun cs mem => complete cs (List.mem_cons_of_mem _ mem))
            fun cs mem => balanced cs (List.mem_cons_of_mem _ mem)
          refine ⟨settledAll, lexemesAll.trans ?_⟩
          rw [lexemes, List.append_assoc]
          rfl

end Scanner

/-- The tokens of joined texts are those of the texts. -/
theorem lex_joined {texts : List (List Char)} (complete : ∀ cs ∈ texts, (lex cs).complete = true)
    (balanced : ∀ cs ∈ texts, Balanced (tokens (lex cs).lexemes)) :
    (lex (['\n'].intercalate texts)).complete = true ∧
      tokens (lex (['\n'].intercalate texts)).lexemes =
        texts.flatMap fun cs => tokens (lex cs).lexemes := by
  obtain ⟨settled, lexemes⟩ := Scanner.feedAll_joined (s := .initial) rfl rfl complete balanced
  refine ⟨(Scanner.finish_complete _).mpr settled, ?_⟩
  rw [Scanner.lexemes_lex, lexemes]
  rfl

/-! ### Lexemes in order -/

/-- A lexeme lies within the text. -/
theorem start_lt_stop {cs : List Char} (complete : (lex cs).complete = true) {ℓ : Lexeme}
    (mem : ℓ ∈ (lex cs).lexemes) : ℓ.start < ℓ.stop ∧ ℓ.stop ≤ byteLength cs := by
  have settled := (Scanner.finish_complete _).mp complete
  refine (Scanner.seam_end settled).span ℓ ?_
  rwa [← List.mem_reverse, ← Scanner.lexemes_lex]

/-- A lexeme ends before the next one begins. -/
theorem stop_le_start {cs : List Char} (complete : (lex cs).complete = true)
    {earlier later : List Lexeme} {ℓ : Lexeme} (eq : (lex cs).lexemes = earlier ++ ℓ :: later) :
    ∀ other ∈ earlier, other.stop ≤ ℓ.start := by
  obtain ⟨before, c, after, -, length, opens, read⟩ := Scanner.beginsAt_of_lex complete eq
  intro other mem
  rw [← length]
  have seam : Scanner.Seam before (c :: after) := opens.seam
  refine (seam.span other ?_).2
  rw [read]
  exact List.mem_reverse.mpr mem

/-- A part of the lexemes begins with its first one. -/
theorem start_le_start {cs : List Char} (complete : (lex cs).complete = true)
    {earlier part later : List Lexeme} {first : Lexeme}
    (eq : (lex cs).lexemes = earlier ++ (part ++ later)) (head : first ∈ part.head?) :
    ∀ ℓ ∈ part, first.start ≤ ℓ.start := by
  cases part with
  | nil => cases head
  | cons _ rest =>
      cases head
      intro ℓ mem
      obtain rfl | mem := List.mem_cons.mp mem
      · exact Nat.le_refl _
      · obtain ⟨a, b, rfl⟩ := List.append_of_mem mem
        have memFirst : first ∈ (lex cs).lexemes := by rw [eq]; simp
        have span := start_lt_stop complete memFirst
        have after : (lex cs).lexemes = (earlier ++ first :: a) ++ ℓ :: (b ++ later) := by
          rw [eq]
          simp
        have next := stop_le_start complete after first (by simp)
        omega

/-- The lexemes within a run, from where it begins to where the next one does. -/
theorem filter_holds {cs : List Char} (complete : (lex cs).complete = true)
    {before group after : List Lexeme} (eq : (lex cs).lexemes = before ++ (group ++ after))
    (run : Run) (start : (run.start = 0 ∧ before = []) ∨ ∃ ℓ ∈ group.head?, run.start = ℓ.start)
    (stop : (run.stop = byteLength cs ∧ after = []) ∨ ∃ ℓ ∈ after.head?, run.stop = ℓ.start) :
    (lex cs).lexemes.filter run.holds = group := by
  have span {ℓ : Lexeme} (mem : ℓ ∈ before ++ (group ++ after)) :=
    start_lt_stop complete (eq ▸ mem)
  have noneBefore : before.filter run.holds = [] := by
    refine List.filter_eq_nil_iff.mpr fun ℓ mem => ?_
    obtain ⟨-, rfl⟩ | ⟨first, head, begins⟩ := start
    · cases mem
    · obtain ⟨rest, rfl⟩ : ∃ rest, group = first :: rest := List.head?_eq_some_iff.mp head
      have ends := stop_le_start complete eq ℓ mem
      have own := span (List.mem_append_left _ mem)
      simp only [Run.holds, Lexeme.liesWithin, Bool.and_eq_true, decide_eq_true_eq]
      omega
  have allGroup : group.filter run.holds = group := by
    refine List.filter_eq_self.mpr fun ℓ mem => ?_
    have begins : run.start ≤ ℓ.start := by
      obtain ⟨zero, -⟩ | ⟨first, head, begins⟩ := start
      · omega
      · rw [begins]
        exact start_le_start complete eq head ℓ mem
    have ends : ℓ.stop ≤ run.stop := by
      obtain ⟨total, -⟩ | ⟨next, head, ends⟩ := stop
      · rw [total]
        exact (span (List.mem_append_right _ (List.mem_append_left _ mem))).2
      · obtain ⟨rest, rfl⟩ : ∃ rest, after = next :: rest := List.head?_eq_some_iff.mp head
        rw [ends]
        have whole : (lex cs).lexemes = (before ++ group) ++ next :: rest := by rw [eq]; simp
        exact stop_le_start complete whole ℓ (List.mem_append_right _ mem)
    simp only [Run.holds, Lexeme.liesWithin, Bool.and_eq_true, decide_eq_true_eq]
    exact ⟨begins, ends⟩
  have noneAfter : after.filter run.holds = [] := by
    refine List.filter_eq_nil_iff.mpr fun ℓ mem => ?_
    obtain ⟨-, rfl⟩ | ⟨next, head, ends⟩ := stop
    · cases mem
    · have whole : (lex cs).lexemes = (before ++ group) ++ (after ++ []) := by rw [eq]; simp
      have begins := start_le_start complete whole head ℓ mem
      have own := span (List.mem_append_right _ (List.mem_append_right _ mem))
      simp only [Run.holds, Lexeme.liesWithin, Bool.and_eq_true, decide_eq_true_eq]
      omega
  rw [eq, List.filter_append, List.filter_append, noneBefore, allGroup, noneAfter,
    List.nil_append, List.append_nil]

end GraphQLStatics
