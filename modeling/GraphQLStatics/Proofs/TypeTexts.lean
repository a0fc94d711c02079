import GraphQLStatics.Proofs.TokenShapes
import GraphQLStatics.Proofs.TypeCompatibility

/-!
# Texts of types

A type reference has a flag on each layer, and its text has an exclamation mark after
each layer that is non-null.  A type as written has a non-null layer of its own instead.
The text of a reference is that of the type which writes it, and when this text is read,
each mark goes to the layer that it follows.

So nothing is lost in the text, as long as the type name within is a name of the language:
different references have different texts.

## Main Definitions

* `Token.IsName`: the texts that are names
* `TypeRef.toExpr`: the type that writes a reference
* `lexWithin`, `Grammar.readType?`: read a text that is a type as a whole

## Main Statements

* `TypeRef.ofExpr_toExpr`, `TypeRef.toExpr_ofExpr`: references and plain types
* `TypeRef.reads_render`: the tokens of a text
* `Grammar.typeWithin_tokens`: the type with these tokens
* `render_faithful`: texts of types can be read back
-/

namespace GraphQLStatics

/-! ### References and written types -/

/-- The type, which is non-null unless it is marked as nullable. -/
def TypeExpr.flagged (nullable : Bool) (expr : TypeExpr) : TypeExpr :=
  if nullable then expr else .nonNull expr

namespace TypeRef

/-- The type that writes a reference. -/
def toExpr : TypeRef → TypeExpr
  | .named name nullable => .flagged nullable (.named name)
  | .list item nullable => .flagged nullable (.list item.toExpr)

theorem ofExpr_toExpr (t : TypeRef) : ofExpr t.toExpr = t := by
  induction t with
  | named name nullable => cases nullable <;> rfl
  | list item nullable ih =>
      have items : ofExprWith true item.toExpr = item := ih
      cases nullable <;> simp [toExpr, TypeExpr.flagged, ofExpr, ofExprWith, items]

theorem toExpr_withNullable {expr : TypeExpr} {t : TypeRef} (nullable : expr.isNonNull = false)
    (written : t.toExpr = expr) : (t.withNullable false).toExpr = .nonNull expr := by
  subst written
  cases t with
  | named name flag =>
      cases flag with
      | true => rfl
      | false => cases nullable
  | list item flag =>
      cases flag with
      | true => rfl
      | false => cases nullable

/-- Only plain types are written, and each of them by its own reference. -/
theorem toExpr_ofExpr {expr : TypeExpr} (plain : expr.Plain) : (ofExpr expr).toExpr = expr := by
  induction expr with
  | named name => rfl
  | list item ih => exact congrArg TypeExpr.list (ih plain)
  | nonNull inner ih =>
      rw [ofExpr_nonNull]
      exact toExpr_withNullable plain.1 (ih plain.2)

theorem render_flagged (nullable : Bool) (expr : TypeExpr) :
    (TypeExpr.flagged nullable expr).render = expr.render ++ mark nullable := by
  cases nullable with
  | true => exact (String.append_empty).symm
  | false => rfl

theorem render_toExpr (t : TypeRef) : t.toExpr.render = t.render := by
  induction t with
  | named name nullable => exact render_flagged nullable _
  | list item nullable ih =>
      rw [toExpr, render_flagged, TypeExpr.render, ih]
      rfl

/-- The tokens of a mark. -/
def markTokens (nullable : Bool) : List Token :=
  if nullable then [] else [.punct .bang]

/-- The tokens of a reference. -/
def tokens : TypeRef → List Token
  | .named name nullable => .name name :: markTokens nullable
  | .list item nullable =>
    .punct .openBracket :: (item.tokens ++ .punct .closeBracket :: markTokens nullable)

theorem depth_lt_length_tokens (t : TypeRef) : t.depth < t.tokens.length := by
  induction t with
  | named name nullable => exact Nat.zero_lt_succ _
  | list item nullable ih =>
      simp only [depth, tokens, List.length_cons, List.length_append]
      omega

end TypeRef

/-! ### Scanning -/

/-- The text is a name of the language. -/
def Token.IsName (text : String) : Prop :=
  ∃ c cs, text.toList = c :: cs ∧ isNameStart c = true ∧ ∀ d ∈ cs, isNameChar d = true

namespace Scanner

/-- No token is being read but a name that may go on. -/
def Between (s : Scanner) : Prop :=
  s.mode = .blank ∨ ∃ text, s.mode = .name text

theorem Between.settled {s : Scanner} (between : s.Between) : s.Settled := by
  obtain blank | ⟨text, name⟩ := between
  · rw [Settled, settle_of_blank blank, blank]
  · rw [Settled, settle, name]
    rfl

/-- The scanner `s'` has read the tokens since `s`, the last of which may be a name that
goes on. -/
structure Reads (s : Scanner) (ts : List Token) (s' : Scanner) : Prop where
  between : s'.Between
  tokens : GraphQLStatics.tokens s'.settle.lexemes =
    ts.reverse ++ GraphQLStatics.tokens s.settle.lexemes
  room : s'.room + ts.countP Token.isOpening = s.room + ts.countP Token.isClosing

theorem Reads.refl {s : Scanner} (between : s.Between) : s.Reads [] s :=
  ⟨between, rfl, rfl⟩

theorem Reads.trans {s s' s'' : Scanner} {ts more : List Token} (first : s.Reads ts s')
    (second : s'.Reads more s'') : s.Reads (ts ++ more) s'' where
  between := second.between
  tokens := by rw [second.tokens, first.tokens, List.reverse_append, List.append_assoc]
  room := by
    have left := first.room
    have right := second.room
    rw [List.countP_append, List.countP_append]
    omega

/-- A punctuator ends a name. -/
theorem feed_punctuator {s : Scanner} (between : s.Between) {c : Char} {p : Punctuator}
    (found : Punctuator.ofChar? c = some p) :
    s.feed c =
      { s.settle with start := s.settle.position, startOffset := s.settle.offset }.punctuate
        p c := by
  obtain ⟨mode, position, offset, start, startOffset, room, lexemes⟩ := s
  unfold Punctuator.ofChar? at found
  split at found <;> cases found
  all_goals obtain rfl | ⟨text, rfl⟩ := between <;> rfl

/-- A punctuator is read, unless it is a bracket for which there is no room. -/
theorem Reads.punctuator {s : Scanner} (between : s.Between) {c : Char} {p : Punctuator}
    (found : Punctuator.ofChar? c = some p) (hasRoom : p.isOpening = true → s.room ≠ 0) :
    (s.feed c).mode = .blank ∧ s.Reads [.punct p] (s.feed c) := by
  have notClosing : p.isOpening = true → p.isClosing = false := by cases p <;> decide
  have roomEq := s.room_settle
  let begun : Scanner :=
    { s.settle with start := s.settle.position, startOffset := s.settle.offset }
  have done (room : Nat) (balance : room + p.isOpening.toNat = s.room + p.isClosing.toNat) :
      ({ begun.extend .blank c with room }.emit (.punct p)).mode = .blank ∧
        s.Reads [.punct p] ({ begun.extend .blank c with room }.emit (.punct p)) := by
    refine ⟨rfl, .inl rfl, rfl, ?_⟩
    simp only [countP_cons_toNat, List.countP_nil, Nat.zero_add]
    exact balance
  rw [feed_punctuator between found, punctuate]
  cases opening : p.isOpening with
  | true =>
      have some : s.settle.room ≠ 0 := roomEq ▸ hasRoom opening
      rw [if_pos rfl, if_neg some]
      refine done (s.settle.room - 1) ?_
      rw [opening, notClosing opening, ← roomEq]
      exact Nat.sub_one_add_one some
  | false =>
      rw [if_neg Bool.false_ne_true]
      cases closing : p.isClosing with
      | true => exact done (s.settle.room + 1) (by rw [opening, closing, roomEq]; rfl)
      | false => exact done s.settle.room (by rw [opening, closing, roomEq])

theorem stuck_feed_punctuator {s : Scanner} (between : s.Between) {c : Char} {p : Punctuator}
    (found : Punctuator.ofChar? c = some p) (opening : p.isOpening = true) (full : s.room = 0) :
    (s.feed c).mode = .stuck := by
  rw [feed_punctuator between found, punctuate, if_pos opening, if_pos (s.room_settle.trans full)]
  rfl

theorem feedAll_name {s : Scanner} {text cs : List Char} (mode : s.mode = .name text)
    (chars : ∀ c ∈ cs, Token.isNameChar c = true) :
    (s.feedAll cs).mode = .name (cs.reverse ++ text) ∧ (s.feedAll cs).room = s.room ∧
      (s.feedAll cs).lexemes = s.lexemes := by
  induction cs generalizing s text with
  | nil => exact ⟨mode, rfl, rfl⟩
  | cons c cs ih =>
      have step : s.feed c = s.extend (.name (c :: text)) c := by
        simp only [feed, mode, chars c List.mem_cons_self, if_true]
      rw [feedAll_cons, step, List.reverse_cons, List.append_assoc]
      exact ih rfl fun d mem => chars d (List.mem_cons_of_mem c mem)

/-- A character that is not the first of a name, given by a test. -/
theorem ne_of_isNameStart {c d : Char} (isStart : Token.isNameStart c = true)
    (other : Token.isNameStart d = false) : c ≠ d := by
  rintro rfl
  cases isStart.symm.trans other

theorem visible_of_isNameStart {c : Char} (isStart : Token.isNameStart c = true) : Visible c := by
  refine ⟨ne_of_isNameStart isStart (by decide), fun position => ?_⟩
  unfold afterBlank?
  split
  all_goals first | rfl | cases (show Token.isNameStart _ = false by decide).symm.trans isStart

/-- No other token begins like a name. -/
theorem feed_nameStart {s : Scanner} (blank : s.mode = .blank) {c : Char}
    (isStart : Token.isNameStart c = true) :
    s.feed c = { s with start := s.position, startOffset := s.offset }.extend (.name [c]) c := by
  have notQuote : (c == '"') = false := beq_false_of_ne (ne_of_isNameStart isStart (by decide))
  have notDot : (c == '.') = false := beq_false_of_ne (ne_of_isNameStart isStart (by decide))
  rw [feed_of_visible blank (visible_of_isNameStart isStart), feedStart]
  simp only [notQuote, notDot, isStart, Bool.false_eq_true, if_false, if_true]

theorem Reads.name {s : Scanner} (blank : s.mode = .blank) {text : String}
    (isName : Token.IsName text) : s.Reads [.name text] (s.feedAll text.toList) := by
  obtain ⟨c, cs, chars, isStart, isChar⟩ := isName
  rw [chars, feedAll_cons, feed_nameStart blank isStart]
  obtain ⟨mode, room, lexemes⟩ := feedAll_name (s :=
    { s with start := s.position, startOffset := s.offset }.extend (.name [c]) c) rfl isChar
  refine ⟨.inr ⟨_, mode⟩, ?_, room⟩
  have spelled : String.ofList (cs.reverse ++ [c]).reverse = text := by
    rw [List.reverse_append, List.reverse_reverse, List.reverse_singleton, List.singleton_append,
      ← chars, String.ofList_toList]
  rw [settle_of_blank blank, settle, mode]
  show Token.name (String.ofList (cs.reverse ++ [c]).reverse) :: GraphQLStatics.tokens _ = _
  rw [lexemes, spelled]
  rfl

theorem Reads.mark {s : Scanner} (between : s.Between) (nullable : Bool) :
    s.Reads (TypeRef.markTokens nullable) (s.feedAll (TypeRef.mark nullable).toList) := by
  cases nullable with
  | true => exact .refl between
  | false => exact (Reads.punctuator between (c := '!') (p := .bang) rfl nofun).2

end Scanner

/-- A text has the tokens of the type, if there is room for its lists. -/
theorem TypeRef.reads_render (t : TypeRef) (isName : Token.IsName t.innermostName) {s : Scanner}
    (blank : s.mode = .blank) (hasRoom : t.depth ≤ s.room) :
    s.Reads t.tokens (s.feedAll t.render.toList) := by
  induction t generalizing s with
  | named name nullable =>
      have first := Scanner.Reads.name blank isName
      rw [render, String.toList_append, Scanner.feedAll_append]
      exact first.trans (.mark first.between nullable)
  | list item nullable ih =>
      have someRoom : s.room ≠ 0 := Nat.ne_of_gt (Nat.lt_of_lt_of_le (Nat.succ_pos _) hasRoom)
      obtain ⟨blank', opened⟩ := Scanner.Reads.punctuator (.inl blank) (c := '[')
        (p := .openBracket) rfl fun _ => someRoom
      have left : item.depth ≤ (s.feed '[').room := by
        have room : (s.feed '[').room + 1 = s.room := opened.room
        have deeper : item.depth + 1 ≤ s.room := hasRoom
        omega
      have items := ih isName blank' left
      have closed := (Scanner.Reads.punctuator items.between (c := ']') (p := .closeBracket) rfl
        nofun).2
      have marked := Scanner.Reads.mark closed.between nullable
      rw [render, String.toList_append, String.toList_append, String.toList_append,
        Scanner.feedAll_append, Scanner.feedAll_append, Scanner.feedAll_append]
      exact opened.trans (items.trans (closed.trans marked))

/-- A text with more lists than there is room for is not read. -/
theorem TypeRef.stuck_render (t : TypeRef) {s : Scanner} (blank : s.mode = .blank)
    (noRoom : s.room < t.depth) : (s.feedAll t.render.toList).mode = .stuck := by
  induction t generalizing s with
  | named name nullable => exact absurd noRoom (Nat.not_lt_zero _)
  | list item nullable ih =>
      have stays {s' : Scanner} (stuck : s'.mode = .stuck) (cs : List Char) :
          (s'.feedAll cs).mode = .stuck := by
        rw [Scanner.feedAll_of_stuck stuck, stuck]
      have below : ((s.feed '[').feedAll item.render.toList).mode = .stuck := by
        by_cases full : s.room = 0
        · refine stays ?_ _
          exact Scanner.stuck_feed_punctuator (.inl blank) (p := .openBracket) rfl rfl full
        · obtain ⟨blank', opened⟩ := Scanner.Reads.punctuator (.inl blank) (c := '[')
            (p := .openBracket) rfl fun _ => full
          refine ih blank' ?_
          have room : (s.feed '[').room + 1 = s.room := opened.room
          have deeper : s.room < item.depth + 1 := noRoom
          omega
      rw [render, String.toList_append, String.toList_append, String.toList_append,
        Scanner.feedAll_append, Scanner.feedAll_append, Scanner.feedAll_append]
      exact stays (stays below _) _

/-! ### Reading -/

/-- The lexemes of a text in which at most the given number of brackets are open at once. -/
def lexWithin (room : Nat) (cs : List Char) : Lexed :=
  ({ Scanner.initial with room }.feedAll cs).finish

-- Any text is read with room for `Scanner.maxDepth` of them.
example (cs : List Char) : lexWithin Scanner.maxDepth cs = lex cs :=
  rfl

namespace TypeRef

variable {room : Nat}

theorem lexWithin_render (t : TypeRef) (isName : Token.IsName t.innermostName)
    (hasRoom : t.depth ≤ room) :
    (lexWithin room t.render.toList).complete = true ∧
      GraphQLStatics.tokens (lexWithin room t.render.toList).lexemes = t.tokens := by
  have reads := t.reads_render isName (s := { Scanner.initial with room }) rfl hasRoom
  refine ⟨(Scanner.finish_complete _).mpr reads.between.settled, ?_⟩
  rw [lexWithin, Scanner.finish_lexemes, GraphQLStatics.tokens, List.map_reverse]
  show (GraphQLStatics.tokens _).reverse = _
  rw [reads.tokens, List.reverse_append, List.reverse_reverse]
  rfl

theorem lexWithin_render_incomplete (t : TypeRef) (noRoom : room < t.depth) :
    (lexWithin room t.render.toList).complete = false := by
  have stuck := t.stuck_render (s := { Scanner.initial with room }) rfl noRoom
  simp only [lexWithin, Scanner.finish, stuck]

end TypeRef

namespace Grammar

/-- The type that a text is as a whole, where at most the given number of brackets are open
at once. -/
def readTypeWithin? (room : Nat) (text : String) : Option TypeExpr :=
  let lexed := lexWithin room text.toList
  if lexed.complete then
    match typeExpr lexed.lexemes with
    | .ok (expr, []) => some expr
    | _ => none
  else none

/-- The type that a text is as a whole.  There are no more brackets than characters. -/
def readType? (text : String) : Option TypeExpr :=
  readTypeWithin? text.length text

/-- The mark after a type, if there is one. -/
theorem skipIf_bang (inner : TypeExpr) (nullable : Bool) {lexemes rest : List Lexeme}
    (spelled : tokens lexemes = TypeRef.markTokens nullable)
    (ends : Admits (· ≠ .punct .bang) rest) :
    (do if ← skipIf (isPunct .bang) then return .nonNull inner else return inner :
      Parse TypeExpr) (lexemes ++ rest) = .ok (.flagged nullable inner, rest) := by
  cases nullable with
  | true =>
      cases List.map_eq_nil_iff.mp spelled
      refine bind_eq_ok.mpr ⟨false, rest, bind_eq_ok.mpr ⟨false, rest, ?_, rfl⟩, rfl⟩
      refine ReadsOn.nextIs_eq_ok.mpr ⟨?_, rfl⟩
      cases rest with
      | nil => rfl
      | cons ℓ rest => exact decide_eq_false (ends ℓ rfl)
  | false =>
      obtain ⟨ℓ, later, rfl, isBang, none⟩ := exists_of_tokens_cons spelled
      cases List.map_eq_nil_iff.mp none
      refine bind_eq_ok.mpr ⟨true, rest, bind_eq_ok.mpr ⟨true, ℓ :: rest, ?_, rfl⟩, rfl⟩
      exact ReadsOn.nextIs_eq_ok.mpr ⟨decide_eq_true isBang, rfl⟩

/-- The type with given tokens is read, whatever follows other than a mark. -/
theorem typeWithin_tokens (t : TypeRef) {n : Nat} (fuel : t.depth < n)
    {lexemes rest : List Lexeme} (spelled : tokens lexemes = t.tokens)
    (ends : Admits (· ≠ .punct .bang) rest) :
    typeWithin n (lexemes ++ rest) = .ok (t.toExpr, rest) := by
  induction t generalizing n lexemes rest with
  | named name nullable =>
      obtain ⟨n, rfl⟩ := Nat.exists_eq_add_one_of_ne_zero (Nat.ne_of_gt fuel)
      obtain ⟨ℓ, marks, rfl, isName, spelled⟩ := exists_of_tokens_cons spelled
      have notList : nextIs (isPunct .openBracket) (ℓ :: marks ++ rest) =
          .ok (false, ℓ :: marks ++ rest) :=
        ReadsOn.nextIs_eq_ok.mpr ⟨by simp [isName, isPunct], rfl⟩
      have named : Grammar.name (ℓ :: marks ++ rest) = .ok (name, marks ++ rest) := by
        simp [Grammar.name, take, isName]
      rw [typeWithin]
      refine bind_eq_ok.mpr ⟨false, _, notList, bind_eq_ok.mpr ⟨name, _, named, ?_⟩⟩
      exact skipIf_bang (.named name) nullable spelled ends
  | list item nullable ih =>
      obtain ⟨n, rfl⟩ := Nat.exists_eq_add_one_of_ne_zero (Nat.ne_of_gt (Nat.zero_lt_of_lt fuel))
      obtain ⟨ℓ, more, rfl, isOpening, spelled⟩ := exists_of_tokens_cons spelled
      obtain ⟨items, more, rfl, itemsSpelled, spelled⟩ := exists_of_tokens_append spelled
      obtain ⟨ℓ', marks, rfl, isClosing, spelled⟩ := exists_of_tokens_cons spelled
      have notBang : Admits (· ≠ .punct .bang) (ℓ' :: (marks ++ rest)) := by
        rintro _ ⟨⟩
        simp [isClosing]
      have itemRead := ih (Nat.lt_of_succ_lt_succ fuel) itemsSpelled notBang
      have isList : nextIs (isPunct .openBracket) (ℓ :: (items ++ ℓ' :: marks) ++ rest) =
          .ok (true, ℓ :: (items ++ ℓ' :: marks) ++ rest) :=
        ReadsOn.nextIs_eq_ok.mpr ⟨by simp [isOpening, isPunct], rfl⟩
      have opened : punct .openBracket (ℓ :: (items ++ ℓ' :: marks) ++ rest) =
          .ok ((), items ++ ℓ' :: (marks ++ rest)) := by
        simp [punct, take, isOpening, isPunct]
      have closed : punct .closeBracket (ℓ' :: (marks ++ rest)) = .ok ((), marks ++ rest) := by
        simp [punct, take, isClosing, isPunct]
      rw [typeWithin]
      refine bind_eq_ok.mpr ⟨true, _, isList, bind_eq_ok.mpr ⟨(), _, opened, ?_⟩⟩
      refine bind_eq_ok.mpr ⟨_, _, itemRead, bind_eq_ok.mpr ⟨(), _, closed, ?_⟩⟩
      exact skipIf_bang (.list item.toExpr) nullable spelled ends

/-- The text of a type is read, as long as there is room for its lists. -/
theorem readTypeWithin?_render (t : TypeRef) (isName : Token.IsName t.innermostName)
    (room : Nat) :
    readTypeWithin? room t.render = if t.depth ≤ room then some t.toExpr else none := by
  by_cases hasRoom : t.depth ≤ room
  · obtain ⟨complete, spelled⟩ := t.lexWithin_render isName hasRoom
    have fuel : t.depth < (lexWithin room t.render.toList).lexemes.length + 1 := by
      rw [← List.length_map Lexeme.token, ← tokens, spelled]
      exact Nat.lt_succ_of_lt t.depth_lt_length_tokens
    have read : typeExpr (lexWithin room t.render.toList).lexemes = .ok (t.toExpr, []) := by
      have ends : Admits (· ≠ .punct .bang) [] := fun ℓ mem => absurd mem (Option.not_mem_none ℓ)
      have before := typeWithin_tokens t fuel spelled ends
      rwa [List.append_nil] at before
    simp only [readTypeWithin?, complete, read, hasRoom, if_true]
  · have incomplete := t.lexWithin_render_incomplete (Nat.lt_of_not_le hasRoom)
    simp only [readTypeWithin?, incomplete, hasRoom, Bool.false_eq_true, if_false]

end Grammar

/-! ### Equality of types -/

namespace TypeRef

theorem depth_le_length_render (t : TypeRef) : t.depth ≤ t.render.length := by
  induction t with
  | named name nullable => exact Nat.zero_le _
  | list item nullable ih =>
      have bracket : "[".length = 1 := rfl
      simp only [depth, render, String.length_append, bracket]
      omega

theorem readType?_render (t : TypeRef) (isName : Token.IsName t.innermostName) :
    Grammar.readType? t.render = some t.toExpr := by
  rw [Grammar.readType?, Grammar.readTypeWithin?_render t isName, if_pos t.depth_le_length_render]

/-- The text of a reference is read back. -/
theorem render_injective {a b : TypeRef} (isName : Token.IsName a.innermostName)
    (isName' : Token.IsName b.innermostName) (same : a.render = b.render) : a = b := by
  have read := a.readType?_render isName
  rw [same, b.readType?_render isName'] at read
  calc a = ofExpr a.toExpr := a.ofExpr_toExpr.symm
    _ = ofExpr b.toExpr := by rw [Option.some.inj read]
    _ = b := b.ofExpr_toExpr

theorem equivalent_iff (a b : TypeRef) : a.equivalent b = true ↔ a = b := by
  induction a generalizing b with
  | named name m =>
      cases b with
      | named name' n => simp [equivalent, and_comm]
      | list item n => simp [equivalent]
  | list item m ih =>
      cases b with
      | named name n => simp [equivalent]
      | list item' n => simp [equivalent, ih, and_comm]

end TypeRef

/-- **Texts of types are faithful.**  The text of a reference around a name can be read as a
type, whose reference it is; with a bound on open brackets, this is so if and only if there
is room for the lists.  The reference of a plain type has the type's own text.  So
references around names are equivalent, the same, or have the same text all at once. -/
theorem render_faithful :
    (∀ t : TypeRef, Token.IsName t.innermostName →
      (∃ expr, Grammar.readType? t.render = some expr ∧ TypeRef.ofExpr expr = t) ∧
      ∀ room, (Grammar.readTypeWithin? room t.render).map TypeRef.ofExpr =
        if t.depth ≤ room then some t else none) ∧
    (∀ expr : TypeExpr, expr.Plain → (TypeRef.ofExpr expr).render = expr.render) ∧
    ∀ a b : TypeRef, Token.IsName a.innermostName → Token.IsName b.innermostName →
      (a.equivalent b = true ↔ a = b) ∧ (a = b ↔ a.render = b.render) := by
  refine ⟨?_, ?_, ?_⟩
  · intro t isName
    refine ⟨⟨t.toExpr, t.readType?_render isName, t.ofExpr_toExpr⟩, fun room => ?_⟩
    rw [Grammar.readTypeWithin?_render t isName]
    split
    · exact congrArg some t.ofExpr_toExpr
    · rfl
  · intro expr plain
    rw [← TypeRef.render_toExpr, TypeRef.toExpr_ofExpr plain]
  · intro a b isName isName'
    refine ⟨a.equivalent_iff b, congrArg _, ?_⟩
    exact TypeRef.render_injective isName isName'

/-- The text `[[Int]!]` is that of a list, which admits `null`, of lists, which do not. -/
theorem render_faithful_lists :
    let t : TypeRef := .list (.list (.named "Int" true) false) true
    let expr : TypeExpr := .list (.nonNull (.list (.named "Int")))
    Token.IsName t.innermostName ∧ expr.Plain ∧ t.render = "[[Int]!]" ∧
      (TypeRef.ofExpr expr).render = expr.render ∧
      (Grammar.readTypeWithin? Scanner.maxDepth t.render).map TypeRef.ofExpr = some t ∧
      (Grammar.readTypeWithin? 1 t.render).map TypeRef.ofExpr = none ∧
      t.render ≠ (t.withNullable false).render := by
  intro t expr
  obtain ⟨readBack, written, faithful⟩ := render_faithful
  have isName : Token.IsName "Int" :=
    ⟨'I', ['n', 't'], by decide, by decide, List.all_eq_true.mp (by decide)⟩
  have plain : expr.Plain := ⟨rfl, trivial⟩
  refine ⟨isName, plain, by decide, written expr plain, (readBack t isName).2 _,
    (readBack t isName).2 1, ?_⟩
  exact mt (faithful t (t.withNullable false) isName isName).2.mpr (by decide)

end GraphQLStatics
