import Mathlib.Data.List.TakeWhile
import GraphQLStatics.Proofs.StringBytes

/-!
# Scanning bytes

Runs can be found without decoding a text.  A scan looks at the byte at an index, passes
over the comment, string, name or single byte that begins there, and cuts names out of
the text by their offsets.  It ends on every text, since each step leads further; and no
cut fails, since the scan is between characters wherever a token begins.  What it finds
are the runs that a splitter finds that reads whole characters.

## Main Definitions

* `ByteScan.next?`, `ByteScan.scan?`: the scan, where cutting a text may fail
* `ByteScan.runs?`, `ByteScan.source?`: runs and their texts, by byte offsets

## Main Statements

* `ByteScan.lt_of_next?`: each step leads further
* `ByteScan.agrees`: the scan finds what a splitter finds
* `runs_cover_text`: the scan succeeds on every text, its runs cover the text, and each
  can be cut out
-/

namespace GraphQLStatics

open Text Bytes

/-! ### Reading names -/

namespace Splitter

theorem feedAll_cons (s : Splitter) (c : Char) (cs : List Char) :
    s.feedAll (c :: cs) = (s.feed c).feedAll cs :=
  rfl

theorem feedAll_append (s : Splitter) (a b : List Char) :
    s.feedAll (a ++ b) = (s.feedAll a).feedAll b :=
  List.foldl_append

/-- The characters of a name are held until it is complete. -/
theorem feedAll_name {word : List Char} (named : ∀ c ∈ word, Token.isNameChar c = true)
    {s : Splitter} {start : Nat} {text : List Char} (isMode : s.mode = .name start text) :
    s.feedAll word = { s with
      mode := .name start (word.reverse ++ text), offset := s.offset + byteLength word } := by
  induction word generalizing s text with
  | nil =>
      show s = _
      rw [List.reverse_nil, List.nil_append, ← isMode]
      rfl
  | cons c word ih =>
      have fed : s.feed c = { s with
          mode := .name start (c :: text), offset := s.offset + c.utf8Size } := by
        simp only [feed, feedAt, isMode, named c List.mem_cons_self, if_true]
      have more : ∀ d ∈ word, Token.isNameChar d = true :=
        fun d mem => named d (List.mem_cons_of_mem _ mem)
      rw [feedAll_cons, fed, ih more rfl, List.reverse_cons, List.append_assoc, byteLength_cons,
        Nat.add_assoc]
      rfl

/-- A name is complete at a character that does not continue it, and at the end. -/
theorem finish_feedAll_name {s : Splitter} {start : Nat} {text : List Char}
    (isMode : s.mode = .name start text) {rest : List Char}
    (complete : ∀ c ∈ rest.head?, Token.isNameChar c = false) :
    (s.feedAll rest).finish = ((s.endName start text).feedAll rest).finish := by
  cases rest with
  | nil =>
      show s.finish = (s.endName start text).finish
      simp only [finish, isMode, mode_endName]
  | cons c rest =>
      have fed : s.feed c = (s.endName start text).feed c := by
        simp only [feed, feedAt, isMode, complete c rfl, mode_endName, offset_endName,
          Bool.false_eq_true, if_false]
      rw [feedAll_cons, feedAll_cons, fed]

/-- What a complete name leads to does not depend on how far a splitter has come. -/
theorem endName_moved (s : Splitter) (mode : Mode) (offset start : Nat) (text : List Char) :
    endName { s with mode := mode, offset := offset } start text =
      { s.endName start text with offset := offset } := by
  unfold endName
  dsimp only
  split
  · next found => rw [found]; rfl
  · next found => rw [found]

/-- A splitter reads a name to its end. -/
theorem finish_feedAll_word {s : Splitter} (isMode : s.mode = .between) {c : Char}
    (isName : Token.isNameStart c = true) {word rest : List Char}
    (named : ∀ d ∈ word, Token.isNameChar d = true)
    (complete : ∀ d ∈ rest.head?, Token.isNameChar d = false) :
    (s.feedAll (c :: word ++ rest)).finish =
      (feedAll { s.endName s.offset (c :: word).reverse with
        offset := s.offset + byteLength (c :: word) } rest).finish := by
  have fed : s.feed c = { s with
      mode := .name s.offset [c], offset := s.offset + c.utf8Size } := by
    simp only [feed, feedAt, isMode, feedBetween_nameStart s isName]
  rw [List.cons_append, feedAll_cons, fed, feedAll_append, feedAll_name named rfl,
    finish_feedAll_name rfl complete, List.reverse_cons, byteLength_cons, ← Nat.add_assoc]
  exact congrArg (fun s => (feedAll s rest).finish) (endName_moved s _ _ _ _)

/-- Whatever begins no comment, no string and no name is read at once. -/
theorem mode_feedBetween (s : Splitter) {c : Char} (noComment : c ≠ '#') (noString : c ≠ '"')
    (noName : Token.isNameStart c = false) : (s.feedBetween c).mode = .between := by
  simp only [feedBetween, beq_false_of_ne noComment, beq_false_of_ne noString, noName,
    Bool.false_eq_true, if_false]
  split
  · unfold openBracket
    split <;> rfl
  · split
    · rfl
    · split
      · rfl
      · split <;> rfl

end Splitter

namespace ByteScan

open Splitter

/-! ### The scan -/

/-- Read what begins with the byte `c` at the splitter's offset: a comment, a string, a
name or a single byte.  A name is cut out of the text. -/
def next? (text : String) (s : Splitter) (c : Char) : Option Splitter :=
  let bytes := bytesOf text
  if c == '#' then
    some { s with offset := skipWhile (fun d => !endsLine d) bytes s.offset }
  else if c == '"' then
    some { s.beginString with mode := .between, offset := skipString bytes s.offset }
  else if Token.isNameStart c then
    let stop := skipWhile Token.isNameChar bytes s.offset
    (slice? text s.offset stop).map fun name =>
      { s.endName s.offset name.toList.reverse with offset := stop }
  else some { s.feedBetween c with offset := s.offset + 1 }

/-- Every step of the scan leads further. -/
theorem lt_of_next? {text : String} {s s' : Splitter} {c : Char}
    (at_ : (bytesOf text)[s.offset]? = some c) (next : next? text s c = some s') :
    s.offset < s'.offset := by
  have inside := (List.getElem?_eq_some_iff.mp at_).1
  unfold next? at next
  dsimp only at next
  split at next
  · next isHash =>
    cases next
    refine lt_skipWhile at_ ?_
    rw [beq_iff_eq.mp isHash]
    rfl
  · split at next
    · cases next
      exact lt_skipString inside
    · split at next
      · next isName =>
        obtain ⟨name, -, rfl⟩ := Option.map_eq_some_iff.mp next
        refine lt_skipWhile at_ ?_
        rw [Token.isNameChar, isName, Bool.true_or]
      · cases next
        exact Nat.lt_succ_self s.offset

/-- Scan the text from the splitter's offset to its end: where definitions begin.  There is
no result if a name cannot be cut out. -/
def scan? (text : String) (s : Splitter) : Option (List (Nat × RunKind)) :=
  match at_ : (bytesOf text)[s.offset]? with
  | none => some s.starts.reverse
  | some c =>
    match next : next? text s c with
    | none => none
    | some s' =>
      have := (List.getElem?_eq_some_iff.mp at_).1
      have := lt_of_next? at_ next
      scan? text s'
termination_by (bytesOf text).length - s.offset

theorem scan?_of_end {text : String} {s : Splitter}
    (atEnd : (bytesOf text)[s.offset]? = none) : scan? text s = some s.starts.reverse := by
  unfold scan?
  split
  · rfl
  · next at_ => rw [atEnd] at at_; cases at_

theorem scan?_of_next? {text : String} {s s' : Splitter} {c : Char}
    (at_ : (bytesOf text)[s.offset]? = some c) (next : next? text s c = some s') :
    scan? text s = scan? text s' := by
  rw [scan?]
  split
  · next atEnd => rw [atEnd] at at_; cases at_
  · next c' at' =>
    cases Option.some.inj (at_.symm.trans at')
    split
    · next fails => rw [fails] at next; cases next
    · next s'' next' =>
      cases Option.some.inj (next.symm.trans next')
      rfl

/-! ### The scan and a splitter -/

theorem isNameChar_of_high {c : Char} (high : 128 ≤ c.toNat) : Token.isNameChar c = false := by
  have above (d : Char) (ascii : d.toNat < 128) : ¬ c ≤ d := by
    intro le
    have : c.toNat ≤ d.toNat := le
    omega
  simp [Token.isNameChar, Token.isNameStart, above 'Z' (by decide), above 'z' (by decide),
    above '9' (by decide), beq_of_high high (d := '_') (by decide)]

theorem isNameStart_of_high {c : Char} (high : 128 ≤ c.toNat) : Token.isNameStart c = false := by
  have noChar := isNameChar_of_high high
  rw [Token.isNameChar, Bool.or_eq_false_iff] at noChar
  exact noChar.1

/-- A name goes as far as characters continue it. -/
theorem exists_word {c : Char} (rest : List Char) (isName : Token.isNameStart c = true) :
    ∃ word after, rest = word ++ after ∧
      (c :: word ++ after).takeWhile Token.isNameChar = c :: word ∧
      (∀ d ∈ word, Token.isNameChar d = true) ∧
      ∀ d ∈ after.head?, Token.isNameChar d = false := by
  refine ⟨rest.takeWhile Token.isNameChar, rest.dropWhile Token.isNameChar,
    List.takeWhile_append_dropWhile.symm, ?_, fun _ => List.mem_takeWhile_imp, ?_⟩
  · rw [List.cons_append, List.takeWhile_append_dropWhile, List.takeWhile_cons, Token.isNameChar,
      isName, Bool.true_or, if_pos rfl]
  · intro d isHead
    have stops := List.head?_dropWhile_not Token.isNameChar rest
    rwa [isHead] at stops

/-- Outside tokens nothing is made of a character above 127. -/
theorem feedBetween_of_high {s : Splitter} (isMode : s.mode = .between) {c : Char}
    (high : 128 ≤ c.toNat) : s.feedBetween c = s := by
  have other (d : Char) (ascii : d.toNat < 128) : (c == d) = false := beq_of_high high ascii
  simp only [feedBetween, ← isMode, other '#' (by decide), other '"' (by decide),
    other '{' (by decide), other '(' (by decide), other '[' (by decide), other '}' (by decide),
    other ')' (by decide), other ']' (by decide), other ' ' (by decide), other '\t' (by decide),
    other '\n' (by decide), other '\r' (by decide), other ',' (by decide),
    isNameStart_of_high high, Bool.or_self, Bool.false_eq_true, if_false,
    if_neg (Nat.not_lt.mpr high)]

theorem next?_of_high {text : String} {s : Splitter} {k : Nat} (isMode : s.mode = .between)
    {c : Char} (high : 128 ≤ c.toNat) :
    next? text { s with offset := k } c = some { s with offset := k + 1 } := by
  simp only [next?, beq_of_high high (d := '#') (by decide),
    beq_of_high high (d := '"') (by decide), isNameStart_of_high high, Bool.false_eq_true,
    if_false]
  rw [feedBetween_of_high (s := { s with offset := k }) isMode high]

/-- From the end of what was read on, scanning bytes by index finds what a splitter finds
that reads the rest of the characters. -/
def Agrees (done rest : List Char) : Prop :=
  ∀ s : Splitter, s.mode = .between → s.offset = byteLength done →
    scan? (String.ofList (done ++ rest)) s = some (s.feedAll rest).finish

theorem agrees_nil (done : List Char) : Agrees done [] := by
  intro s isMode offset
  have atEnd : (bytesOf (String.ofList (done ++ [])))[s.offset]? = none := by
    rw [List.append_nil, bytesOf_ofList, List.getElem?_eq_none_iff, length_encode, offset]
  rw [scan?_of_end atEnd]
  show _ = some s.finish
  simp only [finish, isMode]

section

variable {done rest : List Char} {c : Char}

theorem agrees_of_high (high : 128 ≤ c.toNat) (later : Agrees (done ++ [c]) rest) :
    Agrees done (c :: rest) := by
  intro s isMode offset
  have fed : s.feed c = { s with offset := byteLength (done ++ [c]) } := by
    simp only [feed, feedAt, isMode, feedBetween_of_high isMode high, offset, byteLength_concat]
  have skipped : scan? (String.ofList (done ++ c :: rest)) s =
      scan? (String.ofList (done ++ c :: rest)) { s with offset := byteLength (done ++ [c]) } := by
    have step (k : Nat) (d : Char) (at_ : (encode (done ++ c :: rest))[k]? = some d)
        (isHigh : 128 ≤ d.toNat) :
        scan? (String.ofList (done ++ c :: rest)) { s with offset := k } =
          scan? (String.ofList (done ++ c :: rest)) { s with offset := k + 1 } := by
      rw [← bytesOf_ofList] at at_
      exact scan?_of_next? at_ (next?_of_high isMode isHigh)
    have all := skip_high (f := fun k => scan? (String.ofList (done ++ c :: rest))
      { s with offset := k }) step high (Nat.zero_le _)
    rwa [Nat.add_zero, ← offset] at all
  rw [skipped, feedAll_cons, fed, List.append_cons]
  exact later _ isMode rfl

variable (ascii : c.toNat < 128)
  (later : ∀ inside after, rest = inside ++ after → Agrees (done ++ [c] ++ inside) after)
  {s : Splitter} (offset : s.offset = byteLength done)

include ascii later offset in
/-- A step that leads to the end of `inside`. -/
theorem scan?_of_step {inside after : List Char} (split : rest = inside ++ after) {s' : Splitter}
    (next : next? (String.ofList (done ++ c :: rest)) s c = some s')
    (isMode' : s'.mode = .between) (offset' : s'.offset = byteLength (done ++ [c] ++ inside)) :
    scan? (String.ofList (done ++ c :: rest)) s = some (s'.feedAll after).finish := by
  have at_ : (bytesOf (String.ofList (done ++ c :: rest)))[s.offset]? = some c := by
    rw [bytesOf_ofList, offset]
    exact getElem?_encode_of_ascii _ _ ascii
  have text : done ++ c :: rest = done ++ [c] ++ inside ++ after := by simp [split]
  rw [scan?_of_next? at_ next, text]
  exact later inside after split s' isMode' offset'

include ascii later offset in
/-- A step that passes over as many bytes as the splitter. -/
theorem scan?_of_passes {n : Nat} (passes : PassesOver (s.feed c).mode rest n)
    (next : next? (String.ofList (done ++ c :: rest)) s c =
      some { s.feed c with mode := .between, offset := (s.feed c).offset + n }) :
    scan? (String.ofList (done ++ c :: rest)) s = some (s.feedAll (c :: rest)).finish := by
  obtain ⟨inside, after, split, rfl, passes⟩ := passes
  rw [feedAll_cons, passes _ rfl]
  refine scan?_of_step ascii later offset split next rfl ?_
  show s.offset + c.utf8Size + byteLength inside = byteLength (done ++ [c] ++ inside)
  rw [offset, byteLength_append, byteLength_concat]

include later in
theorem agrees_comment (isHash : c = '#') : Agrees done (c :: rest) := by
  subst isHash
  intro s isMode offset
  have fed : s.feed '#' = { s with mode := .comment, offset := s.offset + 1 } := by
    simp only [feed, feedAt, isMode]
    rfl
  have high : ∀ d : Char, 128 ≤ d.toNat → (!endsLine d) = true := by
    intro d isHigh
    rw [endsLine_of_high isHigh]
    rfl
  have stop : skipWhile (fun d => !endsLine d) (encode (done ++ '#' :: rest)) (byteLength done) =
      byteLength done + byteLength ('#' :: rest.takeWhile fun d => !endsLine d) :=
    skipWhile_encode true high done ('#' :: rest)
  refine scan?_of_passes (by decide) later offset
    (n := byteLength (rest.takeWhile fun d => !endsLine d)) ?_ ?_
  · rw [fed]
    exact passes_comment rest
  · rw [fed, next?, if_pos (beq_self_eq_true _), bytesOf_ofList, offset, stop, byteLength_cons,
      ← Nat.add_assoc, ← isMode]
    rfl

include later in
theorem agrees_string (isQuote : c = '"') : Agrees done (c :: rest) := by
  subst isQuote
  intro s isMode offset
  have fed : s.feed '"' = { s.beginString with offset := s.offset + 1 } := by
    simp only [feed, feedAt, isMode]
    rw [feedBetween, ← isMode]
    rfl
  obtain ⟨n, skipped, passes⟩ := skips_string done rest
  refine scan?_of_passes (by decide) later offset (n := n) ?_ ?_
  · rw [fed]
    exact passes
  · rw [← List.append_cons, byteLength_concat] at skipped
    rw [fed, next?, if_neg (by decide), if_pos (beq_self_eq_true _), bytesOf_ofList, offset,
      skipped]
    rfl

include ascii later in
theorem agrees_single (noHash : c ≠ '#') (noQuote : c ≠ '"')
    (noName : Token.isNameStart c = false) : Agrees done (c :: rest) := by
  intro s isMode offset
  have fed : s.feed c = { s.feedBetween c with offset := s.offset + 1 } := by
    simp only [feed, feedAt, isMode, utf8Size_of_ascii ascii]
  have mode := s.mode_feedBetween noHash noQuote noName
  refine scan?_of_passes ascii later offset (n := 0) ?_ ?_
  · rw [fed, mode]
    exact .refl _
  · simp only [fed, next?, beq_false_of_ne noHash, beq_false_of_ne noQuote, noName,
      Bool.false_eq_true, if_false, ← mode]

include ascii later in
theorem agrees_name (isName : Token.isNameStart c = true) : Agrees done (c :: rest) := by
  intro s isMode offset
  obtain ⟨word, after, rfl, isWord, named, complete⟩ := exists_word rest isName
  have stop := skipWhile_encode false (fun _ => isNameChar_of_high) done (c :: word ++ after)
  rw [isWord] at stop
  have next : next? (String.ofList (done ++ (c :: word ++ after))) s c =
      some { s.endName s.offset (c :: word).reverse with
        offset := s.offset + byteLength (c :: word) } := by
    have noHash : (c == '#') = false := beq_false_of_ne (by rintro rfl; cases isName)
    have noQuote : (c == '"') = false := beq_false_of_ne (by rintro rfl; cases isName)
    simp only [next?, noHash, noQuote, isName, Bool.false_eq_true, if_false, if_true,
      bytesOf_ofList, offset, stop, slice?_append, Option.map_some, String.toList_ofList]
  rw [← List.cons_append, finish_feedAll_word isMode isName named complete]
  refine scan?_of_step ascii later offset rfl next
    (mode_endName s s.offset (c :: word).reverse) ?_
  show s.offset + byteLength (c :: word) = byteLength (done ++ [c] ++ word)
  rw [offset, List.append_assoc, byteLength_append]
  rfl

end

/-- Scanning the bytes of a text by index finds where its definitions begin. -/
theorem agrees (done rest : List Char) : Agrees done rest := by
  -- A step may pass over many characters, so the induction is on the number of characters.
  induction len : rest.length using Nat.strong_induction_on generalizing done rest with
  | _ m ih =>
      cases rest with
      | nil => exact agrees_nil done
      | cons c rest =>
          have later (inside after : List Char) (split : rest = inside ++ after) :
              Agrees (done ++ [c] ++ inside) after := by
            refine ih after.length ?_ _ after rfl
            rw [split, List.length_cons, List.length_append] at len
            omega
          by_cases ascii : c.toNat < 128
          · by_cases isHash : c = '#'
            · exact agrees_comment later isHash
            · by_cases isQuote : c = '"'
              · exact agrees_string later isQuote
              · cases isName : Token.isNameStart c with
                | true => exact agrees_name ascii later isName
                | false => exact agrees_single ascii later isHash isQuote isName
          · have next := later [] rest rfl
            rw [List.append_nil] at next
            exact agrees_of_high (Nat.le_of_not_lt ascii) next

/-! ### Runs by index -/

/-- Add a definition to the runs found so far, the latest first.  The latest run goes to the
end of the text until another is added. -/
def addStart (total : Nat) (found : List Run) (start : Nat × RunKind) : List Run :=
  match found with
  | [] => [⟨start.2, 0, total⟩]
  | run :: earlier =>
    if start.2 = run.kind then found
    else ⟨start.2, start.1, total⟩ :: { run with stop := start.1 } :: earlier

/-- The runs of a text, by scanning its bytes. -/
def runs? (text : String) : Option (List Run) :=
  (scan? text .initial).map fun starts =>
    (starts.foldl (addStart text.utf8ByteSize) []).reverse

theorem foldl_addStart (total start : Nat) (kind : RunKind) (earlier : List Run)
    (rest : List (Nat × RunKind)) :
    (rest.foldl (addStart total) (⟨kind, start, total⟩ :: earlier)).reverse =
      earlier.reverse ++ runsFrom total start kind rest := by
  induction rest generalizing start kind earlier with
  | nil => exact List.reverse_cons
  | cons next rest ih =>
      rw [List.foldl_cons, runsFrom, addStart]
      split
      · exact ih start kind earlier
      · rw [ih, List.reverse_cons, List.append_assoc]
        rfl

/-- Scanning bytes never fails, and gives the runs of the text. -/
theorem runs?_eq (text : String) : runs? text = some (runs text.toList) := by
  have scanned := agrees [] text.toList .initial rfl rfl
  rw [List.nil_append, String.ofList_toList] at scanned
  rw [runs?, scanned, Option.map_some, runs, definitionStarts, byteLength_toList]
  cases (Splitter.initial.feedAll text.toList).finish with
  | nil => rfl
  | cons first rest =>
      exact congrArg some (foldl_addStart text.utf8ByteSize 0 first.2 [] rest)

/-- The text of a run after blanks, cut out by the offsets of the run. -/
def source? (text : String) (run : Run) : Option String := do
  let before ← slice? text 0 run.start
  let own ← slice? text run.start run.stop
  return String.ofList (before.toList.map blanked) ++ own

theorem source?_eq {text : String} {run : Run} (start : IsBoundary text.toList run.start)
    (stop : IsBoundary text.toList run.stop) (ordered : run.start ≤ run.stop) :
    source? text run = some (String.ofList (run.source text.toList)) := by
  obtain ⟨a, b, c, parts, atStart, atStop⟩ := exists_parts start stop ordered
  have whole : text = String.ofList (a ++ (b ++ c)) := by rw [← parts, String.ofList_toList]
  have before : slice? text 0 run.start = some (String.ofList a) := by
    have cut := slice?_append [] a (b ++ c)
    rwa [List.nil_append, ← whole, byteLength_nil, Nat.zero_add, atStart] at cut
  have own : slice? text run.start run.stop = some (String.ofList b) := by
    rw [← atStop, ← atStart, whole]
    exact slice?_append a b c
  rw [source?, before, own, Run.source, parts, ← atStart, takeBytes_append, dropBytes_append,
    atStart, ← atStop, Nat.add_sub_cancel_left, takeBytes_append, String.ofList_append]
  simp

end ByteScan

/-- Whatever a text holds, scanning its bytes by index comes to an end without cutting a
character, and gives the runs of the text.  These go from its first byte to its last
without a gap; none is empty, and neighbours are of different kinds.  They begin and end
between characters, so that the text of each can be cut out. -/
theorem runs_cover_text (text : String) :
    ByteScan.runs? text = some (runs text.toList) ∧
      (∀ run ∈ (runs text.toList).head?, run.start = 0) ∧
      (∀ run ∈ (runs text.toList).getLast?, run.stop = text.utf8ByteSize) ∧
      (runs text.toList).IsChain (fun run next => run.stop = next.start ∧ run.kind ≠ next.kind) ∧
      ∀ run ∈ runs text.toList, run.start < run.stop ∧ run.stop ≤ text.utf8ByteSize ∧
        String.Pos.Raw.IsValid text ⟨run.start⟩ ∧ String.Pos.Raw.IsValid text ⟨run.stop⟩ ∧
        ByteScan.source? text run = some (String.ofList (run.source text.toList)) := by
  have covers := covers_runs text.toList
  rw [byteLength_toList] at covers
  refine ⟨ByteScan.runs?_eq text, covers.first, covers.last, covers.chain, fun run mem => ?_⟩
  obtain ⟨start, stop⟩ := isBoundary_of_mem_runs mem
  have nonempty := covers.nonempty run mem
  have inside := stop.le_byteLength
  rw [byteLength_toList] at inside
  exact ⟨nonempty, inside, (isValid_iff_isBoundary text _).mpr start,
    (isValid_iff_isBoundary text _).mpr stop,
    ByteScan.source?_eq start stop (Nat.le_of_lt nonempty)⟩

end GraphQLStatics
