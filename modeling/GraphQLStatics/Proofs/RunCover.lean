import Mathlib.Data.List.Chain
import GraphQLStatics.Proofs.RunTexts

/-!
# Runs cover their text

A text may hold anything: brackets that match nothing, strings that do not end, or
characters that no token begins with.  Whatever it holds, a splitter finds
definitions at different characters of the text, from left to right.  So the runs
of a text follow each other without a gap, none of them is empty, and together they
hold the whole text.

## Main Definitions

* `Text.HasCharAt`: a character begins at a byte
* `Text.IsBoundary`: a text can be cut at a byte
* `Splitter.Sited`: the definitions found begin at characters that were read

## Main Statements

* `Splitter.Sited.feed`: the next character keeps what was found in its place
* `definitionStarts_ordered`: definitions begin one after the other
* `covers_runs`: the runs of a text follow each other and hold all of it
-/

namespace GraphQLStatics

open Text

/-! ### Characters by their bytes -/

namespace Text

theorem byteLength_concat (cs : List Char) (c : Char) :
    byteLength (cs ++ [c]) = byteLength cs + c.utf8Size :=
  byteLength_append cs [c]

/-- A character of the text begins at the byte. -/
def HasCharAt (cs : List Char) (i : Nat) : Prop :=
  ∃ before c after, cs = before ++ c :: after ∧ byteLength before = i

/-- The text can be cut at the byte without cutting a character. -/
def IsBoundary (cs : List Char) (i : Nat) : Prop :=
  ∃ before after, cs = before ++ after ∧ byteLength before = i

namespace HasCharAt

variable {cs : List Char} {i : Nat}

theorem isBoundary (h : HasCharAt cs i) : IsBoundary cs i := by
  obtain ⟨before, c, after, split, size⟩ := h
  exact ⟨before, c :: after, split, size⟩

theorem lt_byteLength (h : HasCharAt cs i) : i < byteLength cs := by
  obtain ⟨before, c, after, rfl, rfl⟩ := h
  have size := c.utf8Size_pos
  rw [byteLength_append, byteLength_cons]
  omega

theorem append (h : HasCharAt cs i) (more : List Char) : HasCharAt (cs ++ more) i := by
  obtain ⟨before, c, after, rfl, size⟩ := h
  exact ⟨before, c, after ++ more, by simp, size⟩

end HasCharAt

theorem hasCharAt_concat (cs : List Char) (c : Char) : HasCharAt (cs ++ [c]) (byteLength cs) :=
  ⟨cs, c, [], rfl, rfl⟩

theorem isBoundary_zero (cs : List Char) : IsBoundary cs 0 :=
  ⟨[], cs, rfl, rfl⟩

theorem IsBoundary.le_byteLength {cs : List Char} {i : Nat} (h : IsBoundary cs i) :
    i ≤ byteLength cs := by
  obtain ⟨before, after, rfl, rfl⟩ := h
  rw [byteLength_append]
  exact Nat.le_add_right _ _

/-- Two cuts leave three parts. -/
theorem exists_parts {cs : List Char} {start stop : Nat} (first : IsBoundary cs start)
    (second : IsBoundary cs stop) (ordered : start ≤ stop) :
    ∃ a b c, cs = a ++ (b ++ c) ∧ byteLength a = start ∧ start + byteLength b = stop := by
  obtain ⟨a, rest, rfl, rfl⟩ := first
  obtain ⟨before, c, same, rfl⟩ := second
  rcases List.append_eq_append_iff.mp same with ⟨b, rfl, rfl⟩ | ⟨b, rfl, -⟩
  · exact ⟨a, b, c, rfl, rfl, (byteLength_append a b).symm⟩
  · refine ⟨before ++ b, [], rest, rfl, rfl, Nat.le_antisymm ordered ?_⟩
    rw [byteLength_append]
    exact Nat.le_add_right _ _

theorem isBoundary_byteLength (cs : List Char) : IsBoundary cs (byteLength cs) :=
  ⟨cs, [], (List.append_nil cs).symm, rfl⟩

end Text

/-! ### Where definitions are found -/

namespace Splitter

/-- Outside tokens a definition may begin at the character that is read.  If a name
begins there, nothing is known yet. -/
theorem feedBetween_cases (s : Splitter) (c : Char) :
    ((∃ kind, (s.feedBetween c).starts = (s.offset, kind) :: s.starts) ∧
        ∀ start text, (s.feedBetween c).mode ≠ .name start text) ∨
      ((s.feedBetween c).starts = s.starts ∧
        ∀ start text, (s.feedBetween c).mode = .name start text → start = s.offset) := by
  have quiet {mode : Mode} (same : mode = .between ∨ mode = .comment) (start : Nat)
      (text : List Char) (named : mode = .name start text) : start = s.offset := by
    rcases same with rfl | rfl <;> cases named
  unfold feedBetween
  dsimp only
  split
  · exact Or.inr ⟨rfl, quiet (Or.inr rfl)⟩
  · split
    · unfold beginString
      split
      · exact Or.inl ⟨⟨_, rfl⟩, fun _ _ named => by cases named⟩
      · exact Or.inr ⟨rfl, fun _ _ named => by cases named⟩
    · split
      · unfold openBracket
        split
        · exact Or.inl ⟨⟨_, rfl⟩, fun _ _ named => by cases named⟩
        · exact Or.inr ⟨rfl, quiet (Or.inl rfl)⟩
      · split
        · exact Or.inr ⟨rfl, quiet (Or.inl rfl)⟩
        · split
          · refine Or.inr ⟨rfl, ?_⟩
            intro start text named
            cases named
            rfl
          · split
            · exact Or.inr ⟨rfl, quiet (Or.inl rfl)⟩
            · split <;> exact Or.inr ⟨rfl, quiet (Or.inl rfl)⟩

/-- A definition may begin with a name that is complete. -/
theorem endName_cases (s : Splitter) (start : Nat) (text : List Char) :
    (∃ kind, (s.endName start text).starts = (start, kind) :: s.starts) ∨
      (s.endName start text).starts = s.starts := by
  unfold endName
  dsimp only
  split
  · exact Or.inl ⟨_, rfl⟩
  · exact Or.inr rfl

theorem mode_endName (s : Splitter) (start : Nat) (text : List Char) :
    (s.endName start text).mode = .between := by
  unfold endName
  rfl

/-- After the characters `done` a splitter has found definitions at some of them, the
latest first.  A name that is being read begins after all of these. -/
structure Sited (done : List Char) (s : Splitter) : Prop where
  offset : s.offset = byteLength done
  ordered : s.starts.Pairwise fun later earlier => earlier.1 < later.1
  sited : ∀ start ∈ s.starts, HasCharAt done start.1
  named : ∀ start text, s.mode = .name start text →
    HasCharAt done start ∧ ∀ earlier ∈ s.starts, earlier.1 < start

namespace Sited

variable {done : List Char} {s : Splitter}

theorem initial : Sited [] initial :=
  ⟨rfl, .nil, fun _ mem => absurd mem List.not_mem_nil, fun _ _ named => by cases named⟩

/-- What was found lies before the next character. -/
theorem lt_offset (h : Sited done s) : ∀ start ∈ s.starts, start.1 < s.offset := by
  intro start mem
  rw [h.offset]
  exact (h.sited start mem).lt_byteLength

/-- A name that is complete. -/
theorem endName (h : Sited done s) {start : Nat} {text : List Char}
    (mode : s.mode = .name start text) : Sited done (s.endName start text) := by
  obtain ⟨inPlace, later⟩ := h.named start text mode
  have unnamed : ∀ start' text', (s.endName start text).mode = .name start' text' →
      HasCharAt done start' ∧ ∀ earlier ∈ (s.endName start text).starts, earlier.1 < start' := by
    intro start' text' named
    rw [mode_endName] at named
    cases named
  have offset : (s.endName start text).offset = byteLength done :=
    (offset_endName s start text).trans h.offset
  rcases s.endName_cases start text with ⟨kind, eq⟩ | eq
  · refine ⟨offset, ?_, ?_, unnamed⟩
    · rw [eq]
      exact List.pairwise_cons.mpr ⟨later, h.ordered⟩
    · rw [eq]
      exact List.forall_mem_cons.mpr ⟨inPlace, h.sited⟩
  · refine ⟨offset, ?_, ?_, unnamed⟩
    · rw [eq]
      exact h.ordered
    · rw [eq]
      exact h.sited

/-- A character outside tokens. -/
theorem feedBetween (h : Sited done s) (c : Char) :
    Sited (done ++ [c]) { s.feedBetween c with offset := s.offset + c.utf8Size } := by
  have offset : s.offset + c.utf8Size = byteLength (done ++ [c]) := by
    rw [h.offset, byteLength_concat]
  have here : HasCharAt (done ++ [c]) s.offset := by
    rw [h.offset]
    exact hasCharAt_concat done c
  have kept : ∀ start ∈ s.starts, HasCharAt (done ++ [c]) start.1 :=
    fun start mem => (h.sited start mem).append [c]
  rcases s.feedBetween_cases c with ⟨⟨kind, eq⟩, unnamed⟩ | ⟨eq, named⟩
  · refine ⟨offset, ?_, ?_, fun start text named => absurd named (unnamed start text)⟩
    · show (s.feedBetween c).starts.Pairwise _
      rw [eq]
      exact List.pairwise_cons.mpr ⟨h.lt_offset, h.ordered⟩
    · show ∀ start ∈ (s.feedBetween c).starts, _
      rw [eq]
      exact List.forall_mem_cons.mpr ⟨here, kept⟩
  · refine ⟨offset, ?_, ?_, ?_⟩
    · show (s.feedBetween c).starts.Pairwise _
      rw [eq]
      exact h.ordered
    · show ∀ start ∈ (s.feedBetween c).starts, _
      rw [eq]
      exact kept
    · intro start text isName
      cases named start text isName
      refine ⟨here, ?_⟩
      show ∀ earlier ∈ (s.feedBetween c).starts, _
      rw [eq]
      exact h.lt_offset

/-- A character within a token, after which the token goes on or ends. -/
theorem goOn (h : Sited done s) (c : Char) {mode : Mode}
    (named : ∀ start text, mode = .name start text → ∃ text', s.mode = .name start text') :
    Sited (done ++ [c]) { s with mode, offset := s.offset + c.utf8Size } := by
  refine ⟨?_, h.ordered, fun start mem => (h.sited start mem).append [c], ?_⟩
  · show s.offset + c.utf8Size = _
    rw [h.offset, byteLength_concat]
  · intro start text isName
    obtain ⟨text', before⟩ := named start text isName
    obtain ⟨inPlace, later⟩ := h.named start text' before
    exact ⟨inPlace.append [c], later⟩

/-- The next character keeps what was found in its place. -/
theorem feed (h : Sited done s) (c : Char) : Sited (done ++ [c]) (s.feed c) := by
  -- Only a name that goes on leaves a splitter within a name.
  have outside {mode : Mode} (other : ∀ start text, mode ≠ .name start text) :
      Sited (done ++ [c]) { s with mode, offset := s.offset + c.utf8Size } :=
    h.goOn c fun start text named => absurd named (other start text)
  unfold Splitter.feed feedAt
  cases mode : s.mode with
  | between => exact h.feedBetween c
  | comment =>
      dsimp only
      split
      · exact outside (by simp)
      · have same : s = { s with mode := .comment } := by rw [← mode]
        rw [same]
        exact outside (by simp)
  | name start text =>
      dsimp only
      split
      · exact h.goOn c fun start' text' named => by cases named; exact ⟨text, mode⟩
      · have ended := (h.endName mode).feedBetween c
        rwa [offset_endName] at ended
  | openQuote =>
      dsimp only
      split
      · exact outside (by simp)
      · split <;> exact outside (by simp)
  | emptyQuotes =>
      dsimp only
      split
      · exact outside (by simp)
      · exact h.feedBetween c
  | quoted escaped =>
      cases escaped with
      | true => exact outside (by simp)
      | false =>
          dsimp only
          split <;> exact outside (by simp)
  | block tail =>
      dsimp only
      split <;> exact outside (by simp)

theorem feedAll (h : Sited done s) (cs : List Char) : Sited (done ++ cs) (s.feedAll cs) := by
  induction cs generalizing done s with
  | nil => rwa [List.append_nil]
  | cons c cs ih =>
      rw [List.append_cons]
      exact ih (h.feed c)

/-- When the text has ended, definitions are known from left to right. -/
theorem finish (h : Sited done s) :
    s.finish.Pairwise (fun earlier later => earlier.1 < later.1) ∧
      ∀ start ∈ s.finish, HasCharAt done start.1 := by
  have reversed {t : Splitter} (h : Sited done t) :
      t.starts.reverse.Pairwise (fun earlier later => earlier.1 < later.1) ∧
        ∀ start ∈ t.starts.reverse, HasCharAt done start.1 :=
    ⟨List.pairwise_reverse.mpr h.ordered, fun start mem => h.sited start (List.mem_reverse.mp mem)⟩
  unfold Splitter.finish
  split
  · next mode => exact reversed (h.endName mode)
  · exact reversed h

end Sited

end Splitter

/-- Definitions begin at different characters, from left to right. -/
theorem definitionStarts_ordered (cs : List Char) :
    (definitionStarts cs).Pairwise (fun earlier later => earlier.1 < later.1) ∧
      ∀ start ∈ definitionStarts cs, HasCharAt cs start.1 :=
  (Splitter.Sited.initial.feedAll cs).finish

/-! ### Runs in a row -/

/-- The runs follow each other from one byte to another.  None is empty, and neighbours
are of different kinds. -/
structure Covers (start stop : Nat) (rs : List Run) : Prop where
  first : ∀ run ∈ rs.head?, run.start = start
  last : ∀ run ∈ rs.getLast?, run.stop = stop
  chain : rs.IsChain fun run next => run.stop = next.start ∧ run.kind ≠ next.kind
  nonempty : ∀ run ∈ rs, run.start < run.stop

/-- The first run has the kind of the first definition. -/
theorem head?_runsFrom (total start : Nat) (kind : RunKind) (rest : List (Nat × RunKind)) :
    ∃ stop, (runsFrom total start kind rest).head? = some ⟨kind, start, stop⟩ := by
  induction rest with
  | nil => exact ⟨total, rfl⟩
  | cons next rest ih =>
      rw [runsFrom]
      split
      · exact ih
      · exact ⟨next.1, rfl⟩

theorem covers_runsFrom {total start : Nat} {kind : RunKind} {rest : List (Nat × RunKind)}
    (ordered : rest.Pairwise fun earlier later => earlier.1 < later.1)
    (inside : ∀ next ∈ rest, start < next.1 ∧ next.1 < total) (room : start < total) :
    Covers start total (runsFrom total start kind rest) := by
  induction rest generalizing start kind with
  | nil =>
      refine ⟨?_, ?_, .singleton _, ?_⟩ <;> simp [runsFrom, room]
  | cons next rest ih =>
      obtain ⟨next, other⟩ := next
      obtain ⟨after, ordered⟩ := List.pairwise_cons.mp ordered
      obtain ⟨later, within⟩ := inside _ List.mem_cons_self
      have insideRest : ∀ far ∈ rest, start < far.1 ∧ far.1 < total :=
        fun far mem => inside far (List.mem_cons_of_mem _ mem)
      rw [runsFrom]
      split
      · exact ih ordered insideRest room
      · next changes =>
        have rest' : Covers next total (runsFrom total next other rest) :=
          ih ordered (fun far mem => ⟨after far mem, (insideRest far mem).2⟩) within
        obtain ⟨stop, head⟩ := head?_runsFrom total next other rest
        have cons : (runsFrom total next other rest).getLast? =
            (⟨kind, start, next⟩ :: runsFrom total next other rest).getLast? := by
          cases found : runsFrom total next other rest with
          | nil => rw [found] at head; cases head
          | cons run more => rw [List.getLast?_cons_cons]
        refine ⟨?_, ?_, ?_, ?_⟩
        · simp
        · rw [← cons]
          exact rest'.last
        · refine List.isChain_cons.mpr ⟨?_, rest'.chain⟩
          rw [head]
          rintro run isHead
          cases isHead
          exact ⟨rfl, Ne.symm changes⟩
        · exact List.forall_mem_cons.mpr ⟨later, rest'.nonempty⟩

/-- The runs of a text follow each other, and hold all of it. -/
theorem covers_runs (cs : List Char) : Covers 0 (byteLength cs) (runs cs) := by
  obtain ⟨ordered, sited⟩ := definitionStarts_ordered cs
  unfold runs
  split
  · exact ⟨by simp, by simp, .nil, by simp⟩
  · next first kind rest eq =>
    rw [eq] at ordered sited
    obtain ⟨after, ordered⟩ := List.pairwise_cons.mp ordered
    have room := (sited _ List.mem_cons_self).lt_byteLength
    refine covers_runsFrom ordered (fun next mem => ⟨?_, ?_⟩) (by omega)
    · have := after next mem
      omega
    · exact (sited next (List.mem_cons_of_mem _ mem)).lt_byteLength

/-- A text can be cut where its runs begin and end. -/
theorem isBoundary_of_mem_runs {cs : List Char} {run : Run} (mem : run ∈ runs cs) :
    IsBoundary cs run.start ∧ IsBoundary cs run.stop := by
  have sited {i : Nat} (found : ∃ kind, (i, kind) ∈ definitionStarts cs) : IsBoundary cs i :=
    found.elim fun _ mem => ((definitionStarts_ordered cs).2 _ mem).isBoundary
  obtain ⟨start, stop⟩ := mem_runs mem
  constructor
  · rcases start with eq | found
    · rw [eq]
      exact isBoundary_zero cs
    · exact sited found
  · rcases stop with eq | found
    · rw [eq]
      exact isBoundary_byteLength cs
    · exact sited found

end GraphQLStatics
