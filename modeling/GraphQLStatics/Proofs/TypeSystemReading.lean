import GraphQLStatics.Proofs.ValueReading

/-!
# Reading the type system again

A definition of the type system need not end with a bracket.  It is read alike
before any other definition, except that a brace continues a type without
members, and a name continues a directive without locations.

## Main Definitions

* `TypeSystemDefinition.unplaced`
* `TypeBody.lacksBraces`, `Grammar.FollowsBody`, `Grammar.Follows`

## Main Statements

* `Grammar.ReadsOn.typeDefinition`, `Grammar.ReadsOn.directiveDefinition`,
  `Grammar.ReadsOn.rootBlock`
* `Grammar.ReadsOn.typeSystemDefinition`
-/

namespace GraphQLStatics

/-! ### Definitions without positions -/

/-- The argument or input field without its position. -/
def InputValueDefinition.unplaced (v : InputValueDefinition) : InputValueDefinition :=
  { v with position := .first }

/-- The field without positions. -/
def FieldDefinition.unplaced (f : FieldDefinition) : FieldDefinition :=
  { f with position := .first, parameters := f.parameters.map InputValueDefinition.unplaced }

/-- The contents of a type without positions. -/
def TypeBody.unplaced : TypeBody → TypeBody
  | .scalar => .scalar
  | .object interfaces fields => .object interfaces (fields.map FieldDefinition.unplaced)
  | .interface fields => .interface (fields.map FieldDefinition.unplaced)
  | .union members => .union members
  | .enum values => .enum values
  | .inputObject fields => .inputObject (fields.map InputValueDefinition.unplaced)

/-- The type without positions. -/
def TypeDefinition.unplaced (d : TypeDefinition) : TypeDefinition :=
  { d with position := .first, body := d.body.unplaced }

/-- The directive without positions. -/
def DirectiveDefinition.unplaced (d : DirectiveDefinition) : DirectiveDefinition :=
  { d with position := .first, parameters := d.parameters.map InputValueDefinition.unplaced }

/-- The root block without its position. -/
def RootBlock.unplaced (block : RootBlock) : RootBlock :=
  { block with position := .first }

/-- The definition without positions. -/
def TypeSystemDefinition.unplaced : TypeSystemDefinition → TypeSystemDefinition
  | .roots block => .roots block.unplaced
  | .type definition => .type definition.unplaced
  | .extension definition => .extension definition.unplaced
  | .directive definition => .directive definition.unplaced

theorem isEmptyBody_unplaced (body : TypeBody) :
    Grammar.isEmptyBody body.unplaced = Grammar.isEmptyBody body := by
  cases body <;> simp [TypeBody.unplaced, Grammar.isEmptyBody]

/-- An entry is added or refused wherever a root block stands. -/
theorem addRoot?_unplaced (block : RootBlock) (entry : String × String) :
    Grammar.addRoot? block.unplaced entry =
      (Grammar.addRoot? block entry).map RootBlock.unplaced := by
  have same (kind : OperationKind) : block.unplaced.root kind = block.root kind := by
    cases kind <;> rfl
  unfold Grammar.addRoot?
  cases OperationKind.ofKeyword? entry.1 with
  | none => rfl
  | some kind =>
      dsimp only
      rw [same]
      split
      · rfl
      · cases kind <;> rfl

theorem foldlM_addRoot?_unplaced (entries : List (String × String)) (block : RootBlock) :
    entries.foldlM Grammar.addRoot? block.unplaced =
      (entries.foldlM Grammar.addRoot? block).map RootBlock.unplaced := by
  induction entries generalizing block with
  | nil => rfl
  | cons entry entries ih =>
      rw [List.foldlM_cons, List.foldlM_cons, addRoot?_unplaced]
      cases Grammar.addRoot? block entry with
      | none => rfl
      | some block => exact ih block

namespace Grammar

/-! ### What may follow a definition -/

/-- A token that can be seen to begin a definition. -/
def Opening (t : Token) : Prop :=
  ∃ kind, Survey.initial.begins? t = some kind

theorem Opening.isPunct_eq_false {t : Token} (opening : Opening t) {p : Punctuator}
    (other : p ≠ .openBrace) : isPunct p t = false := by
  obtain ⟨kind, begins⟩ := opening
  rw [isPunct, decide_eq_false_iff_not]
  rintro rfl
  cases p <;> first | exact other rfl | cases begins

theorem Opening.isWord_eq_false {t : Token} (opening : Opening t) {word : String}
    (other : RunKind.ofKeyword? word = none) : isWord word t = false := by
  obtain ⟨kind, begins⟩ := opening
  rw [isWord, decide_eq_false_iff_not]
  rintro rfl
  simp [Survey.begins?, Survey.initial, other] at begins

end Grammar

/-- Whether the contents of a type could stand in braces but there are none. -/
def TypeBody.lacksBraces : TypeBody → Bool
  | .object _ fields => fields.isEmpty
  | .interface fields => fields.isEmpty
  | .enum values => values.isEmpty
  | .inputObject fields => fields.isEmpty
  | .scalar | .union _ => false

/-- Whether the definition could have contents in braces but has none. -/
def TypeSystemDefinition.lacksBraces : TypeSystemDefinition → Bool
  | .type definition | .extension definition => definition.body.lacksBraces
  | .roots _ | .directive _ => false

/-- Whether the definition could go on with locations. -/
def TypeSystemDefinition.lacksLocations : TypeSystemDefinition → Bool
  | .directive definition => definition.locations.isEmpty
  | .roots _ | .type _ | .extension _ => false

namespace Grammar

/-- What may follow the contents of a type. -/
def FollowsBody (body : TypeBody) (t : Token) : Prop :=
  Opening t ∧ (body.lacksBraces = true → isPunct .openBrace t = false)

/-- What may follow a definition. -/
def Follows (d : TypeSystemDefinition) (t : Token) : Prop :=
  Opening t ∧ (d.lacksBraces = true → isPunct .openBrace t = false) ∧
    (d.lacksLocations = true → isName t = false)

namespace ReadsOn

/-! ### Members -/

theorem description :
    ReadsOn (fun _ _ => False) Balanced (fun _ _ => True) Grammar.description
      Grammar.description := by
  have string : ReadsOn (fun _ _ => False) Filled Eq (Grammar.take stringText?)
      (Grammar.take stringText?) := by
    refine (take stringText?).mono (fun _ _ => id) ?_ fun _ _ => id
    rintro _ ⟨token, rfl, found⟩
    cases token with
    | string body => exact .single rfl rfl
    | blockString body => exact .single rfl rfl
    | _ => cases found
  exact (optionalWithin string).mono (fun _ _ => id) (fun _ => id) fun _ _ _ => trivial

theorem inputValue :
    ReadsOn (fun _ _ => False) Filled (InvImage Eq InputValueDefinition.unplaced)
      Grammar.inputValue Grammar.inputValue := by
  refine fromHere fun position position' => description.thenFilled fun _ _ _ => ?_
  refine filledName.filledThen ?_
  rintro name _ rfl
  refine (filledPunct rfl rfl).balanced.thenBalanced fun _ _ _ => ?_
  refine typeExpr.balanced.thenBalanced ?_
  rintro type _ rfl
  refine defaultValue.thenBalanced ?_
  rintro default _ rfl
  exact directivesWithin.returns (fun _ _ _ => rfl) fun _ _ => id

theorem parameters :
    ReadsOn (fun _ t => isPunct .openParen t = false) (Passes Outlook.Engaged Outlook.Engaged)
      (List.Forall₂ (InvImage Eq InputValueDefinition.unplaced)) Grammar.parameters
      Grammar.parameters :=
  (parenthesized inputValue).returns (fun _ _ => forall₂_getD) fun _ _ => id

theorem fieldDefinition :
    ReadsOn (fun _ _ => False) Filled (InvImage Eq FieldDefinition.unplaced)
      Grammar.fieldDefinition Grammar.fieldDefinition := by
  refine fromHere fun position position' => description.thenFilled fun _ _ _ => ?_
  refine filledName.filledThen ?_
  rintro name _ rfl
  refine (parameters.mono (fun _ _ => False.elim) (fun _ passes => passes.balanced)
    fun _ _ => id).thenBalanced fun given given' givenEq => ?_
  refine (filledPunct rfl rfl).balanced.thenBalanced fun _ _ _ => ?_
  refine typeExpr.balanced.thenBalanced ?_
  rintro type _ rfl
  refine directivesWithin.returns (fun _ _ _ => ?_) fun _ _ => id
  simp [InvImage, FieldDefinition.unplaced, map_eq_of_forall₂ givenEq]

theorem enumValue :
    ReadsOn (fun _ _ => False) Filled Eq Grammar.enumValue Grammar.enumValue := by
  refine description.thenFilled fun _ _ _ => filledName.filledThen ?_
  rintro name _ rfl
  exact directivesWithin.returns (fun _ _ _ => rfl) fun _ _ => id

section Members

variable {α β : Type} {R : α → β → Prop} {p : Parse α} {q : Parse β}

/-- Members are read alike before anything but a brace, and before a brace if
there are any. -/
theorem members (item : ReadsOn (fun _ _ => False) Filled R p q) :
    ReadsOn (fun items t => items.isEmpty = true → isPunct .openBrace t = false)
      (Passes Outlook.Engaged fun _ => True) (List.Forall₂ R) (Grammar.members p)
      (Grammar.members q) := by
  have given := (bracketed (H := fun _ _ => True) .openBrace .closeBrace startsMember item).mono
    (S := Passes Outlook.Engaged fun _ => True) (fun _ _ => id)
    (fun _ enclosed => (enclosed.passes rfl rfl).mono (fun _ => id) fun _ _ => trivial)
    fun _ _ => id
  refine (given.optionalPasses (isPunct .openBrace) fun _ _ => trivial).returns
    (fun _ _ => forall₂_getD) ?_
  intro found t admitted
  cases found with
  | none => exact admitted rfl
  | some items => trivial

end Members

/-! ### Names in a row -/

section Names

variable {α : Type} {item : Parse α} (separator : Punctuator)

/-- Names with a separator between them are read alike before anything but
another separator. -/
theorem separated (ties : Outlook.after (.punct separator) = .bound)
    (inert : separator.isOpening = false ∧ separator.isClosing = false)
    (named : ReadsOn (fun _ _ => True) (Ends (· = .bound) Outlook.Engaged) Eq item item) :
    ReadsOn (fun _ t => isPunct separator t = false) (Passes (· = .bound) Outlook.Engaged) Eq
      (Grammar.separated separator item) (Grammar.separated separator item) := by
  have another : ReadsOn (fun _ _ => True) (Ends Outlook.Engaged Outlook.Engaged) Eq
      (do Grammar.punct separator; item) (do Grammar.punct separator; item) :=
    (passPunct separator inert.1 inert.2).endsThen fun _ _ _ => ties ▸ named.passes
  refine (named.endsThen ?_).passes
  rintro first _ rfl
  have more := another.many (isPunct separator) (fun _ ends => ends.2)
    (.nil fun _ => id) fun _ _ x y => x.1.append y
  refine more.returns (fun _ _ related => ?_) fun _ _ other => ⟨other, trivial⟩
  rw [eq_of_forall₂_eq related]

/-- The same with a separator that may precede them. -/
theorem skipThenSeparated (ties : Outlook.after (.punct separator) = .bound)
    (inert : separator.isOpening = false ∧ separator.isClosing = false)
    (named : ReadsOn (fun _ _ => True) (Ends (· = .bound) Outlook.Engaged) Eq item item) :
    ReadsOn (fun _ t => isPunct separator t = false) (Passes (· = .bound) Outlook.Engaged) Eq
      (do let _ ← Grammar.skipIf (isPunct separator); Grammar.separated separator item)
      (do let _ ← Grammar.skipIf (isPunct separator); Grammar.separated separator item) := by
  refine (skipIf (isPunct separator)).bind (fun _ _ _ => separated separator ties inert named)
    (fun _ _ _ other _ => other) ?_
  rintro x y (rfl | ⟨token, rfl, is⟩) passes
  · exact passes
  · rw [isPunct, decide_eq_true_eq] at is
    rw [is]
    refine Passes.append ?_ passes
    exact (Passes.punct inert.1 inert.2).mono (fun _ _ => trivial) fun o eq => eq.trans ties

end Names

theorem interfaces :
    ReadsOn (fun _ => Opening) (Passes Outlook.Engaged Outlook.Engaged) Eq Grammar.interfaces
      Grammar.interfaces := by
  have given : ReadsOn (fun _ t => isPunct .ampersand t = false)
      (Passes Outlook.Engaged Outlook.Engaged) Eq
      (do Grammar.keyword "implements"; separatedNames .ampersand)
      (do Grammar.keyword "implements"; separatedNames .ampersand) :=
    ((passWord "implements" rfl).endsThen fun _ _ _ =>
      skipThenSeparated _ rfl ⟨rfl, rfl⟩ passName).passes
  refine (given.optionalPasses (isWord "implements") fun _ => id).returns ?_ ?_
  · intro found found' related
    rw [eq_of_rel_eq related]
  · intro found t opening
    cases found with
    | none => exact opening.isWord_eq_false rfl
    | some names => exact opening.isPunct_eq_false Punctuator.noConfusion

/-! ### Types -/

/-- The directives and the contents of a type, without positions. -/
def unplacedBody (x : List DirectiveUse × TypeBody) : List DirectiveUse × TypeBody :=
  (x.1.map DirectiveUse.unplaced, x.2.unplaced)

theorem directivesThen {γ δ : Type} {H : γ → Token → Prop} {B : Outlook → Prop}
    {R : γ → δ → Prop} {f : List DirectiveUse → Parse γ} {g : List DirectiveUse → Parse δ}
    (opening : ∀ c t, H c t → Opening t)
    (rest : ∀ a b, a.map DirectiveUse.unplaced = b.map DirectiveUse.unplaced →
      ReadsOn H (Passes Outlook.Engaged B) R (f a) (g b)) :
    ReadsOn H (Passes Outlook.Engaged B) R (Grammar.directives >>= f)
      (Grammar.directives >>= g) := by
  refine directives.bind (fun a b related => rest a b (map_eq_of_forall₂ related)) ?_
    fun _ _ x y => x.append y
  intro _ c t admitted
  exact ⟨(opening c t admitted).isPunct_eq_false Punctuator.noConfusion,
    (opening c t admitted).isPunct_eq_false Punctuator.noConfusion⟩

/-- Directives and members. -/
theorem directivesThenMembers {α : Type} {R : α → α → Prop} {item : Parse α}
    (body : List α → TypeBody) (reads : ReadsOn (fun _ _ => False) Filled R item item)
    (braces : ∀ items, (body items).lacksBraces = items.isEmpty)
    (alike : ∀ a b, List.Forall₂ R a b → (body a).unplaced = (body b).unplaced) :
    ReadsOn (fun x => FollowsBody x.2) (Passes Outlook.Engaged fun _ => True)
      (InvImage Eq unplacedBody)
      (do let directives ← Grammar.directives; return (directives, body (← Grammar.members item)))
      (do let directives ← Grammar.directives
          return (directives, body (← Grammar.members item))) := by
  refine directivesThen (fun _ _ follows => follows.1) fun applied applied' appliedEq => ?_
  refine (members reads).returns (fun items items' related => ?_) fun items t follows => ?_
  · simp only [InvImage, unplacedBody, appliedEq, alike _ _ related]
  · rw [← braces]
    exact follows.2

theorem interfacesThen {γ δ : Type} {H : γ → Token → Prop} {B : Outlook → Prop}
    {R : γ → δ → Prop} {f : List String → Parse γ} {g : List String → Parse δ}
    (opening : ∀ c t, H c t → Opening t)
    (rest : ∀ names, ReadsOn H (Passes Outlook.Engaged B) R (f names) (g names)) :
    ReadsOn H (Passes Outlook.Engaged B) R (Grammar.interfaces >>= f)
      (Grammar.interfaces >>= g) := by
  have second (a b : List String) (eq : a = b) : ReadsOn H (Passes Outlook.Engaged B) R (f a)
      (g b) := eq ▸ rest a
  exact interfaces.bind second (fun _ => opening) fun _ _ x y => x.append y

theorem typeBody (kind : TypeKeyword) :
    ReadsOn (fun x => FollowsBody x.2) (Passes Outlook.Engaged fun _ => True)
      (InvImage Eq unplacedBody) (Grammar.typeBody kind) (Grammar.typeBody kind) := by
  cases kind with
  | scalar =>
      refine directivesThen (fun _ _ follows => follows.1) fun applied applied' appliedEq => ?_
      refine (pure ?_).mono (fun _ _ => id) ?_ fun _ _ => id
      · simp only [InvImage, unplacedBody, appliedEq]
      · rintro _ rfl
        exact .nil fun _ _ => trivial
  | type =>
      refine interfacesThen (fun _ _ follows => follows.1) fun names => ?_
      refine directivesThenMembers (.object names) fieldDefinition (fun _ => rfl) ?_
      intro fields fields' related
      simp only [TypeBody.unplaced, map_eq_of_forall₂ related]
  | interface =>
      refine interfacesThen (fun _ _ follows => follows.1) fun _ => ?_
      refine directivesThenMembers .interface fieldDefinition (fun _ => rfl) ?_
      intro fields fields' related
      simp only [TypeBody.unplaced, map_eq_of_forall₂ related]
  | union =>
      refine directivesThen (fun _ _ follows => follows.1) fun applied applied' appliedEq => ?_
      have given : ReadsOn (fun _ t => isPunct .pipe t = false)
          (Passes Outlook.Engaged Outlook.Engaged) Eq
          (do Grammar.punct .equals; separatedNames .pipe)
          (do Grammar.punct .equals; separatedNames .pipe) :=
        ((passPunct .equals rfl rfl).endsThen fun _ _ _ =>
          skipThenSeparated _ rfl ⟨rfl, rfl⟩ passName).passes
      refine ((given.optionalPasses (isPunct .equals) fun _ => id).returns ?_ ?_).mono
        (fun _ _ => id) (fun _ passes => passes.mono (fun _ => id) fun _ _ => trivial)
        fun _ _ => id
      · intro found found' related
        simp only [InvImage, unplacedBody, appliedEq, eq_of_rel_eq related]
      · intro found t follows
        cases found with
        | none => exact follows.1.isPunct_eq_false Punctuator.noConfusion
        | some names => exact follows.1.isPunct_eq_false Punctuator.noConfusion
  | enum =>
      refine directivesThenMembers .enum enumValue (fun _ => rfl) ?_
      intro values values' related
      rw [eq_of_forall₂_eq related]
  | input =>
      refine directivesThenMembers .inputObject inputValue (fun _ => rfl) ?_
      intro fields fields' related
      simp only [TypeBody.unplaced, map_eq_of_forall₂ related]

/-- The tokens of a definition from its keyword on. -/
def Keyworded (ts : List Token) : Prop :=
  ∃ word rest, RunKind.ofKeyword? word = some .typeSystem ∧
    Passes (· = .bound) (fun _ => True) rest ∧ ts = .name word :: rest

theorem Keyworded.shape {ts : List Token} (keyworded : Keyworded ts) : Shape .typeSystem ts := by
  obtain ⟨word, rest, keyword, passes, rfl⟩ := keyworded
  exact .ofKeyword keyword passes RunKind.noConfusion

/-- After another keyword. -/
theorem Keyworded.passes {ts : List Token} (keyworded : Keyworded ts) :
    Passes (· = .bound) (fun _ => True) ts := by
  obtain ⟨word, rest, keyword, passes, rfl⟩ := keyworded
  have first : Passes (· = .bound) (· = .bound) [.name word] := by
    refine (Passes.single rfl rfl ?_).mono (fun _ => id) ?_
    · rintro o starts rfl
      rfl
    · rintro o rfl
      exact Outlook.after_keyword keyword
  exact first.append passes

theorem typeKeyword?_isSome {token : Token} (found : (typeKeyword? token).isSome) :
    ∃ word, token = .name word ∧ RunKind.ofKeyword? word = some .typeSystem := by
  cases token with
  | name word =>
      have listed : word ∈ ["scalar", "type", "interface", "union", "enum", "input"] := by
        by_contra missing
        simp only [List.mem_cons, List.not_mem_nil, not_or] at missing
        simp [typeKeyword?, missing] at found
      have each : ∀ word ∈ ["scalar", "type", "interface", "union", "enum", "input"],
          RunKind.ofKeyword? word = some .typeSystem := by decide
      exact ⟨word, rfl, each word listed⟩
  | _ => cases found

/-- A type is read alike before any definition that does not go on with it. -/
theorem typeDefinition :
    ReadsOn (fun x => FollowsBody x.2.body) Keyworded
      (fun x y => x.1.map DirectiveUse.unplaced = y.1.map DirectiveUse.unplaced ∧
        x.2.unplaced = y.2.unplaced) Grammar.typeDefinition Grammar.typeDefinition := by
  refine fromHere fun position position' => ?_
  refine (take (H := fun _ _ => True) typeKeyword?).bind
    (Q := Passes (· = .bound) fun _ => True) ?_ (fun _ _ _ _ => trivial) ?_
  · rintro kind _ rfl
    refine (passName.endsThen ?_).passes
    rintro name _ rfl
    refine (typeBody kind).returns (fun x y related => ?_) fun _ _ => id
    obtain ⟨appliedEq, bodyEq⟩ := Prod.mk.inj related
    refine ⟨appliedEq, ?_⟩
    simp only [TypeDefinition.unplaced, bodyEq]
  · rintro _ y ⟨token, rfl, found⟩ passes
    obtain ⟨word, rfl, keyword⟩ := typeKeyword?_isSome found
    exact ⟨word, y, keyword, passes, rfl⟩

/-- A refusal is never read. -/
theorem refused {α β : Type} {H : α → Token → Prop} {P : List Token → Prop} {R : α → β → Prop}
    {fault : Fault} {q : Parse β} : ReadsOn H P R (throw fault) q where
  spells := fun ok => by cases ok
  again := fun ok => by cases ok

theorem extension :
    ReadsOn (fun d => FollowsBody d.body) (Shape .typeSystem) (InvImage Eq TypeDefinition.unplaced)
      Grammar.extension Grammar.extension := by
  refine (keyword (H := fun _ _ => True) "extend").bind (Q := Keyworded)
    (fun _ _ _ => typeDefinition.concludes ?_ ?_) (fun _ _ _ _ => trivial) ?_
  · rintro ⟨applied, d⟩ ⟨applied', d'⟩ ⟨appliedEq, eq⟩
    -- whether an extension is refused does not depend on positions
    have none : applied.isEmpty = applied'.isEmpty := by
      simpa only [List.isEmpty_map] using congrArg List.isEmpty appliedEq
    have empty : isEmptyBody d.body = isEmptyBody d'.body := by
      rw [← isEmptyBody_unplaced, ← isEmptyBody_unplaced d'.body]
      exact congrArg (fun d => isEmptyBody d.body) eq
    dsimp only
    rw [none, empty]
    split
    · exact refused
    · exact pure eq
  · rintro ⟨applied, d⟩ c t ⟨lexemes, rest, ok⟩ follows
    dsimp only at ok
    split at ok
    · cases ok
    · cases ok
      exact follows
  · rintro _ y rfl keyworded
    exact .ofKeyword rfl keyworded.passes RunKind.noConfusion

/-! ### Directives and root blocks -/

theorem locations :
    ReadsOn (fun found t => Opening t ∧ (found.isEmpty = true → isName t = false))
      (Passes (· = .bound) fun _ => True) Eq Grammar.locations Grammar.locations := by
  have located : ReadsOn (fun _ _ => True) (Ends (· = .bound) Outlook.Engaged) Eq
      (Grammar.take location?) (Grammar.take location?) := by
    refine (take location?).mono (fun _ _ => id) ?_ fun _ _ => id
    rintro _ ⟨token, rfl, found⟩
    cases token with
    | name text => exact ⟨.name text, List.cons_ne_nil _ _⟩
    | _ => cases found
  have given := (skipThenSeparated .pipe rfl ⟨rfl, rfl⟩ located).mono
    (S := Passes (· = .bound) fun _ => True) (fun _ _ => id)
    (fun _ passes => passes.mono (fun _ => id) fun _ _ => trivial) fun _ _ => id
  refine (given.optionalPasses (fun token => isName token || isPunct .pipe token)
    fun _ _ => trivial).returns ?_ ?_
  · intro found found' related
    rw [eq_of_rel_eq related]
  · rintro found t ⟨opening, missing⟩
    have noPipe := opening.isPunct_eq_false (p := .pipe) Punctuator.noConfusion
    cases found with
    | none => simpa only [orMissing, noPipe, Bool.or_false] using missing rfl
    | some found => exact noPipe

/-- A directive is read alike before any definition that does not go on with its
locations. -/
theorem directiveDefinition :
    ReadsOn (fun d t => Opening t ∧ (d.locations.isEmpty = true → isName t = false)) Keyworded
      (InvImage Eq DirectiveDefinition.unplaced) Grammar.directiveDefinition
      Grammar.directiveDefinition := by
  have repeats : ReadsOn (fun found t => found = false → isWord "repeatable" t = false)
      (Passes Outlook.Engaged Outlook.Engaged) Eq (Grammar.skipIf (isWord "repeatable"))
      (Grammar.skipIf (isWord "repeatable")) := by
    refine (skipIf _).mono (fun _ _ => id) ?_ fun _ _ => id
    rintro ts (rfl | ⟨token, rfl, is⟩)
    · exact .nil fun _ => id
    · rw [isWord, decide_eq_true_eq] at is
      rw [is]
      have word := Passes.word "repeatable" rfl
      refine word.mono (fun _ _ => trivial) ?_
      rintro o rfl
      exact Outlook.noConfusion
  have ending (name : String) (position position' : Position)
      (given given' : List InputValueDefinition)
      (givenEq : given.map InputValueDefinition.unplaced =
        given'.map InputValueDefinition.unplaced) (repeatable : Bool) :
      ReadsOn (fun d t => Opening t ∧ (d.locations.isEmpty = true → isName t = false))
        (Ends Outlook.Engaged fun _ => True) (InvImage Eq DirectiveDefinition.unplaced)
        (do Grammar.keyword "on"; let locations ← Grammar.locations
            return { position, name, parameters := given, repeatable, locations })
        (do Grammar.keyword "on"; let locations ← Grammar.locations
            return { position := position', name, parameters := given', repeatable,
                     locations }) := by
    refine (passWord "on" rfl).endsThen fun _ _ _ => locations.returns ?_ fun _ _ => id
    rintro found _ rfl
    simp only [InvImage, DirectiveDefinition.unplaced, givenEq]
  refine fromHere fun position position' => ?_
  refine (keyword (H := fun _ _ => True) "directive").bind (Q := Passes (· = .bound) fun _ => True)
    (fun _ _ _ => ?_) (fun _ _ _ _ => trivial) ?_
  · refine ((passPunct .atSign rfl rfl).endsThen fun _ _ _ => (passName.endsThen ?_).passes).passes
    rintro name _ rfl
    refine (parameters.thenEnds fun given given' givenEq => repeats.thenEnds ?_).passes
    rintro repeatable _ rfl
    exact ending name position position' given given' (map_eq_of_forall₂ givenEq) repeatable
  · rintro _ y rfl passes
    exact ⟨"directive", y, rfl, passes, rfl⟩

/-- A root block is read alike whatever follows it. -/
theorem rootBlock :
    ReadsOn (fun _ _ => True) (Shape .typeSystem) (InvImage Eq RootBlock.unplaced)
      Grammar.rootBlock Grammar.rootBlock := by
  have entries := manyWithinBrackets isName (entry filledName)
  refine fromHere fun position position' => ?_
  refine (keyword (H := fun _ _ => True) "schema").bind (Q := Ends (· = .bound) fun _ => True)
    (fun _ _ _ => ?_) (fun _ _ _ _ => trivial) ?_
  · have applied := directives.mono (S := Passes (· = .bound) Outlook.Engaged) (fun _ _ => id)
      (fun _ passes => passes.mono (by rintro o rfl; exact Outlook.noConfusion) fun _ => id)
      fun _ _ => id
    refine applied.thenEnds fun _ _ _ => ?_
    refine enclosedThen (Q := (· = [])) .openBrace .closeBrace entries ?_ ?_
    · intro found found' related
      cases eq_of_forall₂_eq related
      -- blocks at different positions take up and refuse the same entries
      have same := (foldlM_addRoot?_unplaced found ⟨position, none, none, none⟩).symm.trans
        (foldlM_addRoot?_unplaced found ⟨position', none, none, none⟩)
      dsimp only
      cases first : found.foldlM addRoot? ⟨position, none, none, none⟩ with
      | none => exact refused
      | some block =>
          cases second : found.foldlM addRoot? ⟨position', none, none, none⟩ with
          | none => rw [first, second] at same; cases same
          | some block' =>
              rw [first, second] at same
              exact pure (Option.some.inj same)
    · rintro x _ enclosed rfl
      rw [List.append_nil]
      exact ⟨(enclosed.passes rfl rfl).mono (fun _ => id) fun _ _ => trivial,
        enclosed.firm⟩
  · rintro _ y rfl ends
    exact .ofKeyword rfl ends.1 RunKind.noConfusion

/-! ### Definitions -/

/-- A definition of the type system is read alike before any definition that does
not go on with it. -/
theorem typeSystemDefinition :
    ReadsOn Follows (Shape .typeSystem) (InvImage Eq TypeSystemDefinition.unplaced)
      Grammar.typeSystemDefinition Grammar.typeSystemDefinition := by
  have firm (ts : List Token) (keyworded : Keyworded ts) : ts ≠ [] := by
    obtain ⟨word, rest, -, -, rfl⟩ := keyworded
    exact List.cons_ne_nil _ _
  refine next (fun isRoots => ?_) fun _ shape => shape.firm
  cases isRoots with
  | true =>
      exact rootBlock.returns (fun _ _ eq => congrArg TypeSystemDefinition.roots eq)
        fun _ _ _ => trivial
  | false =>
      refine next (fun isExtension => ?_) fun _ shape => shape.firm
      cases isExtension with
      | true =>
          exact extension.returns (fun _ _ eq => congrArg TypeSystemDefinition.extension eq)
            fun _ _ follows => ⟨follows.1, follows.2.1⟩
      | false =>
          -- a description may precede, after which a keyword still has to come
          refine ((take (H := fun _ _ => True) stringText?).optional _).bindFirm (Q := Keyworded)
            (fun _ _ _ => next (fun isDirective => ?_) firm) firm ?_
          · cases isDirective with
            | true =>
                exact directiveDefinition.returns
                  (fun _ _ eq => congrArg TypeSystemDefinition.directive eq)
                  fun _ _ follows => ⟨follows.1, follows.2.2⟩
            | false =>
                exact typeDefinition.returns
                  (fun _ _ eq => congrArg TypeSystemDefinition.type eq.2)
                  fun _ _ follows => ⟨follows.1, follows.2.1⟩
          · rintro x y (rfl | ⟨token, rfl, found⟩) keyworded
            · exact keyworded.shape
            · obtain ⟨word, rest, keyword, passes, rfl⟩ := keyworded
              refine .ofDescription ?_ keyword passes
              cases token with
              | string body => rfl
              | blockString body => rfl
              | _ => cases found

end ReadsOn

end Grammar

end GraphQLStatics
