import GraphQLStatics.Proofs.TextBytes

/-!
# Comments and strings by index

A string can be passed over by an index into the bytes of its text.  The index moves
by one byte, by two after a backslash, by three at the quotes of a block string and by
four where these are escaped.  Some of these steps end within a character, or after the
text; but the index at which a string is left is the one at which a splitter leaves it
that reads whole characters.

## Main Definitions

* `Splitter.Turns`, `Splitter.PassesOver`: how a splitter leaves a comment or a string
* `ByteScan.skipPlain`, `ByteScan.skipBlock`, `ByteScan.skipString`: strings by index
* `ByteScan.Skips`: bytes are skipped as far as characters are passed over

## Main Statements

* `Splitter.passes_comment`: a comment goes to the end of its line
* `ByteScan.skips_plain`, `ByteScan.skips_block`, `ByteScan.skips_string`: strings by
  index and by character
-/

namespace GraphQLStatics

open Text Bytes

/-- A character that ends a line. -/
def Splitter.endsLine (c : Char) : Bool :=
  c == '\n' || c == '\r'

/-! ### Passing over comments and strings -/

namespace Splitter

/-- The character takes a splitter from one mode to another and changes nothing else. -/
def Turns (mode : Mode) (c : Char) (mode' : Mode) : Prop :=
  ∀ s : Splitter, s.mode = mode →
    s.feed c = { s with mode := mode', offset := s.offset + c.utf8Size }

/-- From the mode on a splitter passes over `n` bytes of the text, and goes on outside tokens
after them. -/
def PassesOver (mode : Mode) (rest : List Char) (n : Nat) : Prop :=
  ∃ inside after, rest = inside ++ after ∧ byteLength inside = n ∧
    ∀ s : Splitter, s.mode = mode → (s.feedAll rest).finish =
      (feedAll { s with mode := .between, offset := s.offset + n } after).finish

namespace PassesOver

variable {mode mode' : Mode} {rest : List Char} {c : Char} {n : Nat}

theorem refl (rest : List Char) : PassesOver .between rest 0 := by
  refine ⟨[], rest, rfl, rfl, fun s isMode => ?_⟩
  rw [Nat.add_zero, ← isMode]

/-- The text may end within a token. -/
theorem ends (mode : Mode) (unnamed : ∀ start text, mode ≠ .name start text) :
    PassesOver mode [] 0 := by
  refine ⟨[], [], rfl, rfl, fun s isMode => ?_⟩
  show s.finish = s.starts.reverse
  unfold finish
  split
  · next named => exact absurd (isMode.symm.trans named) (unnamed _ _)
  · rfl

theorem turn (turns : Turns mode c mode') (passes : PassesOver mode' rest n) :
    PassesOver mode (c :: rest) (c.utf8Size + n) := by
  obtain ⟨inside, after, rfl, rfl, passes⟩ := passes
  refine ⟨c :: inside, after, rfl, rfl, fun s isMode => ?_⟩
  have begun := turns s isMode
  show ((s.feed c).feedAll (inside ++ after)).finish = _
  rw [begun, passes _ rfl]
  simp only [Nat.add_assoc]

/-- The next character may be read as in another mode. -/
theorem instead (same : ∀ s : Splitter, s.mode = mode → s.feed c = feed { s with mode := mode' } c)
    (passes : PassesOver mode' (c :: rest) n) : PassesOver mode (c :: rest) n := by
  obtain ⟨inside, after, split, size, passes⟩ := passes
  refine ⟨inside, after, split, size, fun s isMode => ?_⟩
  rw [← passes { s with mode := mode' } rfl]
  show ((s.feed c).feedAll rest).finish = ((feed { s with mode := mode' } c).feedAll rest).finish
  rw [same s isMode]

end PassesOver

theorem turns_comment {c : Char} (goesOn : endsLine c = false) : Turns .comment c .comment := by
  intro s isMode
  have goesOn : (c == '\n' || c == '\r') = false := goesOn
  simp only [feed, feedAt, isMode, goesOn, Bool.false_eq_true, if_false]

theorem turns_quoted {c : Char} (noQuote : c ≠ '"') (goesOn : endsLine c = false) :
    Turns (.quoted false) c (.quoted (c == '\\')) := by
  intro s isMode
  have goesOn : (c == '\n' || c == '\r') = false := goesOn
  simp only [feed, feedAt, isMode, Bool.or_assoc, goesOn, beq_false_of_ne noQuote,
    Bool.or_self, Bool.false_eq_true, if_false]

theorem turns_escaped (c : Char) : Turns (.quoted true) c (.quoted false) := by
  intro s isMode
  simp only [feed, feedAt, isMode]

theorem turns_quote : Turns (.quoted false) '"' .between := by
  intro s isMode
  simp only [feed, feedAt, isMode]
  rfl

theorem turns_block {tail tail' : BlockTail} {c : Char} (fed : tail.feed c = some tail') :
    Turns (.block tail) c (.block tail') := by
  intro s isMode
  simp only [feed, feedAt, isMode, fed]

theorem turns_endBlock {tail : BlockTail} {c : Char} (fed : tail.feed c = none) :
    Turns (.block tail) c .between := by
  intro s isMode
  simp only [feed, feedAt, isMode, fed]

theorem turns_openQuote : Turns .openQuote '"' .emptyQuotes := by
  intro s isMode
  simp only [feed, feedAt, isMode]
  rfl

theorem turns_emptyQuotes : Turns .emptyQuotes '"' (.block .start) := by
  intro s isMode
  simp only [feed, feedAt, isMode]
  rfl

/-- At the end of its line a comment or a string is left. -/
theorem feed_endsLine {mode : Mode} (inLine : mode = .comment ∨ mode = .quoted false)
    {c : Char} (isEnd : endsLine c = true) :
    ∀ s : Splitter, s.mode = mode → s.feed c = feed { s with mode := .between } c := by
  rintro s rfl
  simp only [endsLine, Bool.or_eq_true, beq_iff_eq] at isEnd
  unfold feed feedAt
  rcases inLine with isMode | isMode <;> rw [isMode] <;> rcases isEnd with rfl | rfl <;> rfl

/-- After its opening quote a string goes on like any string, unless a quote follows. -/
theorem feed_openQuote {c : Char} (noQuote : c ≠ '"') :
    ∀ s : Splitter, s.mode = .openQuote → s.feed c = feed { s with mode := .quoted false } c := by
  intro s isMode
  simp only [feed, feedAt, isMode, beq_false_of_ne noQuote, Bool.false_or, Bool.false_eq_true,
    if_false]

/-- An empty string is left after its quotes. -/
theorem feed_emptyQuotes {c : Char} (noQuote : c ≠ '"') :
    ∀ s : Splitter, s.mode = .emptyQuotes → s.feed c = feed { s with mode := .between } c := by
  intro s isMode
  simp only [feed, feedAt, isMode, beq_false_of_ne noQuote, Bool.false_eq_true, if_false]
  rfl

theorem passes_emptyQuotes {rest : List Char} (noQuote : ¬ ['"'] <+: rest) :
    PassesOver .emptyQuotes rest 0 := by
  cases rest with
  | nil => exact .ends _ (by simp)
  | cons c rest =>
      refine .instead (feed_emptyQuotes ?_) (.refl _)
      rintro rfl
      exact noQuote ⟨rest, rfl⟩

/-- A comment goes to the end of its line. -/
theorem passes_comment (rest : List Char) :
    PassesOver .comment rest (byteLength (rest.takeWhile fun c => !endsLine c)) := by
  induction rest with
  | nil => exact .ends _ (by simp)
  | cons c rest ih =>
      rw [List.takeWhile_cons]
      cases isEnd : endsLine c with
      | true => exact .instead (feed_endsLine (.inl rfl) isEnd) (.refl _)
      | false => exact .turn (turns_comment isEnd) ih

end Splitter

/-! ### Strings by index -/

namespace ByteScan

open Splitter

/-- The index after a string in single quotes, from an index within it on.  A backslash
is passed over together with the byte after it, and that may lead past the end. -/
def skipPlain (bytes : List Char) (i : Nat) : Nat :=
  if h : i < bytes.length then
    if bytes[i] == '\\' then skipPlain bytes (i + 2)
    else if bytes[i] == '"' then i + 1
    else if endsLine bytes[i] then i
    else skipPlain bytes (i + 1)
  else bytes.length
termination_by bytes.length - i

/-- The index after a block string, from an index within it on. -/
def skipBlock (bytes : List Char) (i : Nat) : Nat :=
  if i < bytes.length then
    if standsAt ['\\', '"', '"', '"'] bytes i then skipBlock bytes (i + 4)
    else if standsAt ['"', '"', '"'] bytes i then i + 3
    else skipBlock bytes (i + 1)
  else bytes.length
termination_by bytes.length - i

/-- The index after the string that begins at an index. -/
def skipString (bytes : List Char) (start : Nat) : Nat :=
  if standsAt ['"', '"', '"'] bytes start then skipBlock bytes (start + 3)
  else skipPlain bytes (start + 1)

theorem min_le_skipPlain (bytes : List Char) (i : Nat) :
    min i bytes.length ≤ skipPlain bytes i := by
  fun_induction skipPlain bytes i <;> omega

theorem min_le_skipBlock (bytes : List Char) (i : Nat) :
    min i bytes.length ≤ skipBlock bytes i := by
  fun_induction skipBlock bytes i <;> omega

theorem lt_skipString {bytes : List Char} {i : Nat} (inside : i < bytes.length) :
    i < skipString bytes i := by
  unfold skipString
  split
  · have := min_le_skipBlock bytes (i + 3)
    omega
  · have := min_le_skipPlain bytes (i + 1)
    omega

theorem endsLine_of_high {c : Char} (high : 128 ≤ c.toNat) : endsLine c = false := by
  rw [endsLine, beq_of_high high (d := '\n') (by decide), beq_of_high high (d := '\r') (by decide)]
  rfl

theorem skipPlain_of_getElem? {bytes : List Char} {i : Nat} {c : Char}
    (at_ : bytes[i]? = some c) :
    skipPlain bytes i =
      if c = '\\' then skipPlain bytes (i + 2)
      else if c = '"' then i + 1
      else if endsLine c then i
      else skipPlain bytes (i + 1) := by
  obtain ⟨inside, rfl⟩ := List.getElem?_eq_some_iff.mp at_
  rw [skipPlain, dif_pos inside]
  simp only [beq_iff_eq]

theorem skipPlain_of_length_le {bytes : List Char} {i : Nat} (outside : bytes.length ≤ i) :
    skipPlain bytes i = bytes.length := by
  rw [skipPlain, dif_neg (Nat.not_lt.mpr outside)]

/-- Bytes above 127 are passed over one by one. -/
theorem skipPlain_of_high {bytes : List Char} {i : Nat} {c : Char} (at_ : bytes[i]? = some c)
    (high : 128 ≤ c.toNat) : skipPlain bytes i = skipPlain bytes (i + 1) := by
  rw [skipPlain_of_getElem? at_, if_neg (ne_of_high high (by decide)),
    if_neg (ne_of_high high (by decide)), endsLine_of_high high, if_neg Bool.false_ne_true]

/-- One step within a string in single quotes, where a character begins. -/
theorem skipPlain_encode (done : List Char) (c : Char) (rest : List Char) :
    skipPlain (encode (done ++ c :: rest)) (byteLength done) =
      if c = '\\' then skipPlain (encode (done ++ c :: rest)) (byteLength done + 2)
      else if c = '"' then byteLength done + 1
      else if endsLine c then byteLength done
      else skipPlain (encode (done ++ c :: rest)) (byteLength (done ++ [c])) := by
  by_cases ascii : c.toNat < 128
  · rw [skipPlain_of_getElem? (getElem?_encode_of_ascii _ _ ascii), byteLength_concat,
      utf8Size_of_ascii ascii]
  · have high : 128 ≤ c.toNat := Nat.le_of_not_lt ascii
    rw [if_neg (ne_of_high high (by decide)), if_neg (ne_of_high high (by decide)),
      endsLine_of_high high, if_neg Bool.false_ne_true]
    exact skip_high (f := skipPlain (encode (done ++ c :: rest))) (k := 0)
      (fun _ _ => skipPlain_of_high) high (Nat.zero_le _)

/-- The byte after a backslash may be the first of several.  The others are passed over
too. -/
theorem skipPlain_escaped (done : List Char) (c : Char) (rest : List Char) :
    skipPlain (encode (done ++ '\\' :: c :: rest)) (byteLength done + 2) =
      skipPlain (encode (done ++ '\\' :: c :: rest)) (byteLength (done ++ ['\\'] ++ [c])) := by
  have width : byteLength done + 2 = byteLength (done ++ ['\\']) + 1 := by
    rw [byteLength_concat]
    rfl
  rw [width, List.append_cons]
  by_cases ascii : c.toNat < 128
  · rw [byteLength_concat (done ++ ['\\']) c, utf8Size_of_ascii ascii]
  · exact skip_high (f := skipPlain (encode (done ++ ['\\'] ++ c :: rest)))
      (fun _ _ => skipPlain_of_high) (Nat.le_of_not_lt ascii) c.utf8Size_pos

theorem skipBlock_of_high {bytes : List Char} {i : Nat} {c : Char} (at_ : bytes[i]? = some c)
    (high : 128 ≤ c.toNat) : skipBlock bytes i = skipBlock bytes (i + 1) := by
  obtain ⟨inside, rfl⟩ := List.getElem?_eq_some_iff.mp at_
  rw [skipBlock, if_pos inside, standsAt, standsAt, List.drop_eq_getElem_cons inside,
    isPrefixOf_of_high high (by decide), isPrefixOf_of_high high (by decide)]
  rfl

/-- One step within a block string, where a character begins. -/
theorem skipBlock_encode (done : List Char) (c : Char) (rest : List Char) :
    skipBlock (encode (done ++ c :: rest)) (byteLength done) =
      if ['\\', '"', '"', '"'] <+: c :: rest then
        skipBlock (encode (done ++ c :: rest)) (byteLength done + 4)
      else if ['"', '"', '"'] <+: c :: rest then byteLength done + 3
      else skipBlock (encode (done ++ c :: rest)) (byteLength (done ++ [c])) := by
  simp only [← List.isPrefixOf_iff_prefix]
  by_cases ascii : c.toNat < 128
  · have inside := (List.getElem?_eq_some_iff.mp
      (getElem?_encode_of_ascii done rest ascii)).1
    rw [skipBlock, if_pos inside, standsAt_encode _ (by simp), standsAt_encode _ (by simp),
      byteLength_concat, utf8Size_of_ascii ascii]
  · have high : 128 ≤ c.toNat := Nat.le_of_not_lt ascii
    rw [isPrefixOf_of_high high (by decide), isPrefixOf_of_high high (by decide)]
    exact skip_high (f := skipBlock (encode (done ++ c :: rest))) (k := 0)
      (fun _ _ => skipBlock_of_high) high (Nat.zero_le _)

/-! ### Strings by index and by character -/

/-- From the index `i` on bytes are skipped as far as a splitter that has read `done` passes
over characters. -/
def Skips (skip : List Char → Nat → Nat) (mode : Mode) (done rest : List Char) (i : Nat) : Prop :=
  ∃ n, skip (encode (done ++ rest)) i = byteLength done + n ∧ PassesOver mode rest n

namespace Skips

variable {skip skip' : List Char → Nat → Nat} {mode mode' : Mode} {done rest : List Char}
  {c : Char} {i j : Nat}

theorem turn (turns : Turns mode c mode') (skips : Skips skip mode' (done ++ [c]) rest i) :
    Skips skip mode done (c :: rest) i := by
  obtain ⟨n, skipped, passes⟩ := skips
  refine ⟨c.utf8Size + n, ?_, passes.turn turns⟩
  rw [List.append_cons, skipped, byteLength_concat, Nat.add_assoc]

theorem via (same : skip (encode (done ++ rest)) i = skip' (encode (done ++ rest)) j)
    (skips : Skips skip' mode done rest j) : Skips skip mode done rest i := by
  rwa [Skips, same]

end Skips

/-- A string in single quotes by index and by character. -/
theorem skips_plain (done rest : List Char) :
    Skips skipPlain (.quoted false) done rest (byteLength done) := by
  -- A backslash takes a character along, so the induction is on the number of characters.
  induction len : rest.length using Nat.strong_induction_on generalizing done rest with
  | _ m ih =>
      cases rest with
      | nil =>
          refine ⟨0, ?_, .ends _ (by simp)⟩
          rw [List.append_nil, skipPlain_of_length_le (Nat.le_of_eq (length_encode done)),
            length_encode, Nat.add_zero]
      | cons c rest =>
          rw [List.length_cons] at len
          have here := skipPlain_encode done c rest
          split_ifs at here with slash quote isEnd
          · subst slash
            have turns : Turns (.quoted false) '\\' (.quoted true) := turns_quoted (by decide) rfl
            cases rest with
            | nil =>
                refine ⟨1, ?_, .turn turns (.ends _ (by simp))⟩
                rw [here, skipPlain_of_length_le] <;> rw [length_encode, byteLength_concat]
                · rfl
                · exact Nat.add_le_add_left (by decide) _
            | cons d rest =>
                rw [List.length_cons] at len
                have later := ih rest.length (by omega) (done ++ ['\\'] ++ [d]) rest rfl
                exact .via (here.trans (skipPlain_escaped done d rest))
                  (.turn turns (.turn (turns_escaped d) later))
          · subst quote
            exact ⟨1, here, .turn turns_quote (.refl _)⟩
          · exact ⟨0, here, .instead (feed_endsLine (.inr rfl) isEnd) (.refl _)⟩
          · have turns := turns_quoted quote (Bool.eq_false_iff.mpr isEnd)
            rw [beq_false_of_ne slash] at turns
            exact .via here (.turn turns (ih rest.length (by omega) (done ++ [c]) rest rfl))

/-- Quotes held by a block string are not made three by those that follow. -/
def Pending (tail : BlockTail) (rest : List Char) : Prop :=
  tail = .start ∨ tail.quotes ≤ 2 ∧ ¬ List.replicate (3 - tail.quotes) '"' <+: rest

namespace Pending

variable {tail : BlockTail} {rest : List Char}

/-- Before the quotes that end a block string none is held. -/
theorem eq_start (pending : Pending tail rest) (three : ['"', '"', '"'] <+: rest) :
    tail = .start := by
  rcases pending with isStart | ⟨few, noMore⟩
  · exact isStart
  · refine absurd (List.IsPrefix.trans ⟨List.replicate tail.quotes '"', ?_⟩ three) noMore
    rw [List.replicate_append_replicate, Nat.sub_add_cancel (by omega)]
    rfl

/-- Any other quote is held. -/
theorem quote (pending : Pending tail ('"' :: rest)) (open_ : ¬ ['"', '"', '"'] <+: '"' :: rest) :
    ∃ tail', tail.feed '"' = some tail' ∧ Pending tail' rest := by
  have ⟨few, noMore⟩ : tail.quotes ≤ 2 ∧
      ¬ List.replicate (3 - tail.quotes) '"' <+: '"' :: rest := by
    rcases pending with rfl | held
    · exact ⟨Nat.zero_le _, open_⟩
    · exact held
  have fewer : tail.quotes < 2 := by
    refine Nat.lt_of_le_of_ne few fun two => noMore ?_
    rw [two]
    exact ⟨rest, rfl⟩
  refine ⟨⟨tail.quotes + 1, tail.slash⟩, ?_, .inr ⟨fewer, fun more => noMore ?_⟩⟩
  · rw [BlockTail.feed, if_pos (beq_self_eq_true _), if_pos fewer]
  · rw [show 3 - tail.quotes = 3 - (tail.quotes + 1) + 1 by omega, List.replicate_succ]
    exact (List.prefix_cons_inj _).mpr more

/-- After a character that is no quote none is held. -/
theorem other {c : Char} (noQuote : c ≠ '"') (unescaped : ¬ ['\\', '"', '"', '"'] <+: c :: rest) :
    ∃ tail', tail.feed c = some tail' ∧ Pending tail' rest := by
  refine ⟨⟨0, c == '\\'⟩, ?_, ?_⟩
  · rw [BlockTail.feed, beq_false_of_ne noQuote]
    rfl
  · by_cases slash : c = '\\'
    · subst slash
      exact .inr ⟨Nat.zero_le _, fun more => unescaped ((List.prefix_cons_inj _).mpr more)⟩
    · rw [beq_false_of_ne slash]
      exact .inl rfl

end Pending

/-- A block string by index and by character. -/
theorem skips_block {tail : BlockTail} (done rest : List Char) (pending : Pending tail rest) :
    Skips skipBlock (.block tail) done rest (byteLength done) := by
  induction len : rest.length using Nat.strong_induction_on generalizing tail done rest with
  | _ m ih =>
      cases rest with
      | nil =>
          refine ⟨0, ?_, .ends _ (by simp)⟩
          rw [List.append_nil, skipBlock, length_encode, if_neg (Nat.lt_irrefl _), Nat.add_zero]
      | cons c rest =>
          rw [List.length_cons] at len
          have here := skipBlock_encode done c rest
          split_ifs at here with escaped three
          · obtain ⟨rest, split⟩ := escaped
            cases split
            have len : rest.length + 3 + 1 = m := len
            have later := ih rest.length (by omega)
              (done ++ ['\\'] ++ ['"'] ++ ['"'] ++ ['"']) rest (.inl rfl) rfl
            have width : byteLength (done ++ ['\\'] ++ ['"'] ++ ['"'] ++ ['"']) =
                byteLength done + 4 := by
              simp only [byteLength_concat]
              rfl
            rw [width] at later
            exact .via here (.turn (turns_block rfl) (.turn (turns_block rfl)
              (.turn (turns_block rfl) (.turn (turns_block rfl) later))))
          · cases pending.eq_start three
            obtain ⟨after, split⟩ := three
            cases split
            exact ⟨3, here, .turn (turns_block rfl) (.turn (turns_block rfl)
              (.turn (turns_endBlock rfl) (.refl _)))⟩
          · obtain ⟨tail', fed, pending'⟩ :
                ∃ tail', tail.feed c = some tail' ∧ Pending tail' rest := by
              by_cases quote : c = '"'
              · subst quote
                exact pending.quote three
              · exact Pending.other quote escaped
            have later := ih rest.length (by omega) (done ++ [c]) rest pending' rfl
            exact .via here (.turn (turns_block fed) later)

/-- A string by index and by character, after its opening quote. -/
theorem skips_string (done rest : List Char) :
    Skips skipString .openQuote (done ++ ['"']) rest (byteLength done) := by
  have stands := standsAt_encode ['"', '"', '"'] (by simp) done ('"' :: rest)
  have width : byteLength (done ++ ['"']) = byteLength done + 1 := byteLength_concat done '"'
  have here : skipString (encode (done ++ ['"'] ++ rest)) (byteLength done) =
      if ['"', '"'] <+: rest then skipBlock (encode (done ++ ['"'] ++ rest)) (byteLength done + 3)
      else skipPlain (encode (done ++ ['"'] ++ rest)) (byteLength (done ++ ['"'])) := by
    simp only [skipString, ← List.append_cons, stands, List.isPrefixOf_iff_prefix,
      List.prefix_cons_inj, width]
  by_cases block : ['"', '"'] <+: rest
  · rw [if_pos block] at here
    obtain ⟨rest, rfl⟩ := block
    have body := skips_block (done ++ ['"'] ++ ['"'] ++ ['"']) rest (.inl rfl)
    rw [byteLength_concat, byteLength_concat, width] at body
    exact Skips.via here (.turn turns_openQuote (.turn turns_emptyQuotes body))
  · rw [if_neg block] at here
    have body := skips_plain (done ++ ['"']) rest
    refine Skips.via here ?_
    cases rest with
    | nil =>
        refine ⟨0, ?_, .ends _ (by simp)⟩
        rw [List.append_nil, skipPlain_of_length_le (Nat.le_of_eq (length_encode _)), length_encode]
        rfl
    | cons c rest =>
        by_cases quote : c = '"'
        · subst quote
          refine ⟨1, ?_, .turn turns_openQuote (passes_emptyQuotes ?_)⟩
          · rw [skipPlain_of_getElem? (getElem?_encode_of_ascii _ _ (by decide))]
            rfl
          · exact fun more => block ((List.prefix_cons_inj _).mpr more)
        · obtain ⟨n, skipped, passes⟩ := body
          exact ⟨n, skipped, .instead (feed_openQuote quote) passes⟩

end ByteScan

end GraphQLStatics
