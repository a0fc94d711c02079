import Mathlib.Data.List.Induction
import GraphQLStatics.Proofs.SchemaSources

/-!
# The paths of texts without a path

A schema is built from texts, of which some have a path.  The others are numbered as they
are loaded, and the number makes up the path by which places within the text are known.

The number is kept in sixteen bits.  So it counts the texts without a path up to a multiple
of `UInt16.size`, and a path is used again once that many texts have been loaded.

## Main Definitions

* `Draft.loadAll`: load texts one after another
* `unnamedCount`: how many texts have no path
* `Draft.pathAt?`: the path under which a text is loaded

## Main Statements

* `Draft.unnamedTexts_of_load`, `Draft.unnamedTexts_of_loadAll`: what a load and a run of
  loads do to the number
* `unnamed_paths_by_number`: the paths of texts without a path
* `unnamed_paths_shared`: two texts with the same path
-/

namespace GraphQLStatics

/-- The number of texts that have no path. -/
def unnamedCount (texts : List (Option String × String)) : Nat :=
  texts.countP (·.1.isNone)

theorem unnamedCount_append (before after : List (Option String × String)) :
    unnamedCount (before ++ after) = unnamedCount before + unnamedCount after :=
  List.countP_append

namespace Draft

/-- Load texts, which may have a path, one after another. -/
def loadAll (d : Draft) (texts : List (Option String × String)) : Except SchemaFailure Draft :=
  texts.foldlM (fun d text => d.load text.1 text.2) d

/-- The path under which a text is loaded, if those before it are loaded. -/
def pathAt? (texts : List (Option String × String)) (i : Nat) : Option String :=
  match texts[i]?, empty.loadAll (texts.take i) with
  | some text, .ok d => some (d.nextPath text.1).1
  | _, _ => none

/-! ### The number of a text -/

theorem load_eq_ok {d d' : Draft} {path : Option String} {text : String}
    (ok : d.load path text = .ok d') :
    ∃ definitions, Grammar.readTypeSystem text.toList = .ok definitions ∧
      (d.nextPath path).2.addAll (d.nextPath path).1 definitions = .ok d' := by
  unfold load at ok
  split at ok
  · cases ok
  · next definitions read => exact ⟨definitions, read, ok⟩

/-- A text without a path is counted when it is loaded, and a text with a path is not. -/
theorem unnamedTexts_of_load {d d' : Draft} {path : Option String} {text : String}
    (ok : d.load path text = .ok d') :
    d'.unnamedTexts = (d.nextPath path).2.unnamedTexts := by
  obtain ⟨definitions, -, added⟩ := load_eq_ok ok
  -- Definitions are taken in beside the number, which they leave as it is.
  have taken := takeIn_eq d d.extensions d.unnamedTexts ⟨path, definitions⟩
  rw [foldlM_addSource_aside] at taken
  have taken := taken.symm.trans added
  cases inside : (definitionsOf (Load.sourcesAfter d.unnamedTexts ⟨path, definitions⟩)).foldlM
      addSource d with
  | error failure =>
      rw [inside] at taken
      cases taken
  | ok inner =>
      rw [inside] at taken
      cases taken
      cases path <;> rfl

theorem loadAll_append {d d' : Draft} {before after : List (Option String × String)} :
    d.loadAll (before ++ after) = .ok d' ↔
      ∃ middle, d.loadAll before = .ok middle ∧ middle.loadAll after = .ok d' := by
  unfold loadAll
  rw [List.foldlM_append]
  cases List.foldlM (fun d text => d.load text.1 text.2) d before with
  | error failure => simp [bind, Except.bind]
  | ok middle => simp [bind, Except.bind]

@[simp] theorem loadAll_singleton (d : Draft) (text : Option String × String) :
    d.loadAll [text] = d.load text.1 text.2 := by
  rw [loadAll, List.foldlM_cons]
  exact bind_pure _

theorem toNat_unnamedTexts_nextPath (d : Draft) (text : Option String × String) :
    (d.nextPath text.1).2.unnamedTexts.toNat =
      (d.unnamedTexts.toNat + unnamedCount [text]) % UInt16.size := by
  obtain ⟨_ | path, content⟩ := text
  · exact UInt16.toNat_add ..
  · exact (Nat.mod_eq_of_lt d.unnamedTexts.toNat_lt).symm

/-- A run of loads counts the texts without a path, up to what sixteen bits hold. -/
theorem unnamedTexts_of_loadAll {d d' : Draft} {texts : List (Option String × String)}
    (ok : d.loadAll texts = .ok d') :
    d'.unnamedTexts.toNat = (d.unnamedTexts.toNat + unnamedCount texts) % UInt16.size := by
  induction texts using List.reverseRecOn generalizing d' with
  | nil =>
      cases ok
      exact (Nat.mod_eq_of_lt d.unnamedTexts.toNat_lt).symm
  | append_singleton before text ih =>
      obtain ⟨middle, okBefore, okText⟩ := loadAll_append.mp ok
      rw [loadAll_singleton] at okText
      rw [unnamedTexts_of_load okText, toNat_unnamedTexts_nextPath, ih okBefore, Nat.mod_add_mod,
        Nat.add_assoc, unnamedCount_append]

/-! ### Paths -/

theorem nextPath_eq (d : Draft) (path : Option String) :
    (d.nextPath path).1 = path.getD (unnamedPath d.unnamedTexts) := by
  cases path <;> rfl

/-- The number of a text without a path, if those before it are loaded. -/
theorem nextPath_of_loadAll {d : Draft} {before : List (Option String × String)}
    (ok : empty.loadAll before = .ok d) (path : Option String) :
    (d.nextPath path).1 =
      path.getD ("str://" ++ toString (unnamedCount before % UInt16.size)) := by
  have number : d.unnamedTexts.toNat = (0 + unnamedCount before) % UInt16.size :=
    unnamedTexts_of_loadAll ok
  rw [nextPath_eq, unnamedPath, number, Nat.zero_add]

/-- The text with an index is loaded after those before it. -/
theorem pathAt?_of_loadAll {d : Draft} {texts : List (Option String × String)}
    (ok : empty.loadAll texts = .ok d) {i : Nat} {path : Option String} {text : String}
    (isText : texts[i]? = some (path, text)) :
    ∃ before after, empty.loadAll (texts.take i) = .ok before ∧
      before.load path text = .ok after ∧
      pathAt? texts i = some (before.nextPath path).1 := by
  have split : texts = texts.take i ++ ([(path, text)] ++ texts.drop (i + 1)) := by
    have fromHere := texts.drop_eq_getElem?_toList_append (i := i)
    rw [isText] at fromHere
    exact (texts.take_append_drop i).symm.trans (congrArg _ fromHere)
  rw [split] at ok
  obtain ⟨before, okBefore, okRest⟩ := loadAll_append.mp ok
  obtain ⟨after, okText, -⟩ := loadAll_append.mp okRest
  rw [loadAll_singleton] at okText
  refine ⟨before, after, okBefore, okText, ?_⟩
  simp only [pathAt?, isText, okBefore]

theorem numbered_inj {m n : Nat} : "str://" ++ toString m = "str://" ++ toString n ↔ m = n := by
  rw [String.append_right_inj]
  constructor
  · intro same
    have digits : Nat.toDigits 10 m = Nat.toDigits 10 n := by
      rw [← Nat.toList_repr, ← Nat.toList_repr]
      exact congrArg String.toList same
    rw [← @Nat.ofDigitChars_ten_toDigits m, digits, Nat.ofDigitChars_ten_toDigits]
  · rintro rfl
    rfl

end Draft

/-! ### Numbers -/

/-- The text with index `i` has no path, and `n` of those before it have none. -/
structure UnnamedAt (texts : List (Option String × String)) (n i : Nat) : Prop where
  unnamed : ∃ text, texts[i]? = some (none, text)
  number : unnamedCount (texts.take i) = n

namespace UnnamedAt

variable {texts : List (Option String × String)} {m n i j : Nat}

/-- The text itself is counted after it. -/
theorem number_lt_unnamedCount (isUnnamed : UnnamedAt texts n i)
    {later : List (Option String × String)} (sublist : (texts.take (i + 1)).Sublist later) :
    n < unnamedCount later := by
  obtain ⟨⟨text, isText⟩, rfl⟩ := isUnnamed
  rw [List.take_add_one, isText] at sublist
  calc unnamedCount (texts.take i) < unnamedCount (texts.take i) + 1 := Nat.lt_succ_self _
    _ = unnamedCount (texts.take i ++ [(none, text)]) := by
        rw [unnamedCount_append]
        rfl
    _ ≤ unnamedCount later := sublist.countP_le

theorem number_lt (first : UnnamedAt texts m i) (second : UnnamedAt texts n j) (less : i < j) :
    m < n := by
  have before : (texts.take (i + 1)).Sublist (texts.take j) := List.take_sublist_take_left less
  exact second.number ▸ first.number_lt_unnamedCount before

/-- A text is known by its number. -/
theorem index_unique (first : UnnamedAt texts n i) (second : UnnamedAt texts n j) : i = j := by
  rcases Nat.lt_trichotomy i j with less | same | greater
  · exact absurd (first.number_lt second less) (Nat.lt_irrefl n)
  · exact same
  · exact absurd (second.number_lt first greater) (Nat.lt_irrefl n)

theorem append (isUnnamed : UnnamedAt texts n i) (later : List (Option String × String)) :
    UnnamedAt (texts ++ later) n i := by
  obtain ⟨⟨text, isText⟩, number⟩ := isUnnamed
  have inRange : i < texts.length := (List.getElem?_eq_some_iff.mp isText).1
  refine ⟨⟨text, ?_⟩, ?_⟩
  · rw [List.getElem?_append_left inRange, isText]
  · rw [List.take_append_of_le_length (Nat.le_of_lt inRange), number]

/-- A text without a path at the end of a list. -/
theorem last (before : List (Option String × String)) (text : String) :
    UnnamedAt (before ++ [(none, text)]) (unnamedCount before) before.length := by
  refine ⟨⟨text, List.getElem?_concat_length ..⟩, ?_⟩
  rw [List.take_left]

/-- Every number below the count is that of a text. -/
theorem exists_index (less : n < unnamedCount texts) : ∃ i, UnnamedAt texts n i := by
  induction texts using List.reverseRecOn with
  | nil => exact absurd less (Nat.not_lt_zero n)
  | append_singleton before text ih =>
      by_cases earlier : n < unnamedCount before
      · obtain ⟨i, isUnnamed⟩ := ih earlier
        exact ⟨i, isUnnamed.append [text]⟩
      · rw [unnamedCount_append] at less
        obtain ⟨_ | path, content⟩ := text
        · have one : unnamedCount [((none : Option String), content)] = 1 := rfl
          have isLast : n = unnamedCount before := by omega
          exact ⟨before.length, isLast ▸ last before content⟩
        · have zero : unnamedCount [(some path, content)] = 0 := rfl
          omega

end UnnamedAt

/-! ### A text that can be loaded again -/

/-- A text that can be loaded any number of times: a root block without roots. -/
def emptyBlock : String :=
  "schema\x7b\x7d"

/-- What is read is a root block without roots. -/
def isEmptyBlock : Except Position (List TypeSystemDefinition) → Bool
  | .ok [.roots ⟨_, none, none, none⟩] => true
  | _ => false

theorem exists_of_isEmptyBlock {result : Except Position (List TypeSystemDefinition)}
    (isBlock : isEmptyBlock result = true) :
    ∃ position, result = .ok [.roots ⟨position, none, none, none⟩] := by
  unfold isEmptyBlock at isBlock
  split at isBlock
  · exact ⟨_, rfl⟩
  · cases isBlock

namespace Draft

theorem load_emptyBlock (d : Draft) (path : Option String) :
    d.load path emptyBlock = .ok (d.nextPath path).2 := by
  have isBlock : isEmptyBlock (Grammar.readTypeSystem emptyBlock.toList) = true := by
    decide +kernel
  obtain ⟨position, read⟩ := exists_of_isEmptyBlock isBlock
  rw [load, read]
  rfl

end Draft

/-! ### The paths of a run -/

theorem Draft.pathAt?_of_unnamedAt {texts : List (Option String × String)} {d : Draft}
    (ok : empty.loadAll texts = .ok d) {n i : Nat} (isUnnamed : UnnamedAt texts n i) :
    pathAt? texts i = some ("str://" ++ toString (n % UInt16.size)) := by
  obtain ⟨⟨text, isText⟩, rfl⟩ := isUnnamed
  obtain ⟨before, after, okBefore, -, path⟩ := pathAt?_of_loadAll ok isText
  rw [path, nextPath_of_loadAll okBefore]
  rfl

/-- **Texts without a path are numbered**, up to what sixteen bits hold.  In every run of
loads, a text is taken in under its own path if it has one, and otherwise under the path
made from its number modulo `UInt16.size`.  The numbers are counted from zero, and no text
with a path counts.  So these paths are made from the numbers themselves, and they are
different, if and only if there are at most `UInt16.size` texts without a path. -/
theorem unnamed_paths_by_number (texts : List (Option String × String)) (d : Draft)
    (ok : Draft.empty.loadAll texts = .ok d) :
    (∀ i path text, texts[i]? = some (path, text) →
      ∃ given before definitions after, Draft.pathAt? texts i = some given ∧
        Draft.empty.loadAll (texts.take i) = .ok before ∧
        Grammar.readTypeSystem text.toList = .ok definitions ∧
        (before.nextPath path).2.addAll given definitions = .ok after ∧
        ∀ own, path = some own → given = own) ∧
    (∀ n i, UnnamedAt texts n i →
      Draft.pathAt? texts i = some ("str://" ++ toString (n % UInt16.size))) ∧
    ((∀ n i, UnnamedAt texts n i → Draft.pathAt? texts i = some ("str://" ++ toString n)) ↔
      unnamedCount texts ≤ UInt16.size) ∧
    ((∀ m n i j, UnnamedAt texts m i → UnnamedAt texts n j → i ≠ j →
        Draft.pathAt? texts i ≠ Draft.pathAt? texts j) ↔
      unnamedCount texts ≤ UInt16.size) := by
  have numbered {n i : Nat} (isUnnamed : UnnamedAt texts n i) :=
    Draft.pathAt?_of_unnamedAt ok isUnnamed
  refine ⟨?_, fun n i => numbered, ⟨?_, ?_⟩, ⟨?_, ?_⟩⟩
  · intro i path text isText
    obtain ⟨before, after, okBefore, okText, path⟩ := Draft.pathAt?_of_loadAll ok isText
    obtain ⟨definitions, read, added⟩ := Draft.load_eq_ok okText
    refine ⟨_, before, definitions, after, path, okBefore, read, added, ?_⟩
    rintro own rfl
    rfl
  · intro asNumbered
    by_contra more
    obtain ⟨i, isUnnamed⟩ := UnnamedAt.exists_index (Nat.lt_of_not_le more)
    have same := (asNumbered _ i isUnnamed).symm.trans (numbered isUnnamed)
    exact absurd (Draft.numbered_inj.mp (Option.some.inj same)) (by decide)
  · intro few n i isUnnamed
    have small := Nat.lt_of_lt_of_le (isUnnamed.number_lt_unnamedCount (texts.take_sublist _)) few
    rw [numbered isUnnamed, Nat.mod_eq_of_lt small]
  · intro different
    by_contra more
    have many := Nat.lt_of_not_le more
    obtain ⟨i, first⟩ := UnnamedAt.exists_index (Nat.zero_lt_of_lt many)
    obtain ⟨j, again⟩ := UnnamedAt.exists_index many
    have apart : i ≠ j := by
      rintro rfl
      exact absurd (first.number.symm.trans again.number) (by decide)
    refine different _ _ i j first again apart ?_
    rw [numbered first, numbered again, Nat.mod_self, Nat.zero_mod]
  · intro few m n i j first second apart same
    have small := Nat.lt_of_lt_of_le (first.number_lt_unnamedCount (texts.take_sublist _)) few
    have small' := Nat.lt_of_lt_of_le (second.number_lt_unnamedCount (texts.take_sublist _)) few
    rw [numbered first, numbered second, Nat.mod_eq_of_lt small, Nat.mod_eq_of_lt small'] at same
    cases Draft.numbered_inj.mp (Option.some.inj same)
    exact apart (first.index_unique second)

/-- Two texts without a path, and one with a path between them. -/
theorem unnamed_paths_by_number_between :
    let texts := [(none, emptyBlock), (some "a.graphql", emptyBlock), (none, emptyBlock)]
    (∃ d, Draft.empty.loadAll texts = .ok d) ∧ Draft.pathAt? texts 0 = some "str://0" ∧
      Draft.pathAt? texts 1 = some "a.graphql" ∧ Draft.pathAt? texts 2 = some "str://1" := by
  intro texts
  obtain ⟨d, ok⟩ : ∃ d, Draft.empty.loadAll texts = .ok d := by
    simp only [texts, Draft.loadAll, List.foldlM_cons, Draft.load_emptyBlock]
    exact ⟨_, rfl⟩
  obtain ⟨taken, numbered, -, -⟩ := unnamed_paths_by_number texts d ok
  refine ⟨⟨d, ok⟩, numbered 0 0 ⟨⟨_, rfl⟩, rfl⟩, ?_, numbered 1 2 ⟨⟨_, rfl⟩, rfl⟩⟩
  obtain ⟨given, -, -, -, path, -, -, -, own⟩ := taken 1 _ _ rfl
  rw [path, own _ rfl]

/-! ### A path that is used again -/

namespace Draft

theorem loadAll_emptyBlocks (d : Draft) (n : Nat) :
    d.loadAll (List.replicate n (none, emptyBlock)) =
      .ok { d with unnamedTexts := d.unnamedTexts + UInt16.ofNat n } := by
  induction n generalizing d with
  | zero =>
      show Except.ok d = _
      simp
  | succ n ih =>
      rw [List.replicate_succ, loadAll, List.foldlM_cons, load_emptyBlock]
      show loadAll { d with unnamedTexts := d.unnamedTexts + 1 } _ = _
      rw [ih]
      simp [UInt16.ofNat_add, UInt16.add_assoc, UInt16.add_comm]

end Draft

/-- A query type, a number of root blocks without roots, and a scalar, each in a text of
its own. -/
def typesApart (n : Nat) : List (Option String × String) :=
  (none, "type Query\x7ba:Int\x7d") :: List.replicate n (none, emptyBlock) ++ [(none, "scalar A")]

theorem loadAll_typesApart (n : Nat) :
    Draft.empty.loadAll (typesApart n) =
      (Draft.empty.load none "type Query\x7ba:Int\x7d" >>= fun d =>
        Draft.load { d with unnamedTexts := d.unnamedTexts + UInt16.ofNat n } none "scalar A") := by
  rw [typesApart, List.cons_append, Draft.loadAll, List.foldlM_cons]
  refine bind_congr fun d => ?_
  rw [List.foldlM_append]
  show (d.loadAll (List.replicate n (none, emptyBlock)) >>= fun d =>
    d.loadAll [(none, "scalar A")]) = _
  rw [d.loadAll_emptyBlocks n]
  exact Draft.loadAll_singleton _ _

/-- The last text of `typesApart`. -/
theorem unnamedAt_typesApart (n : Nat) : UnnamedAt (typesApart n) (n + 1) (n + 1) := by
  have isLast := UnnamedAt.last
    ((none, "type Query\x7ba:Int\x7d") :: List.replicate n (none, emptyBlock)) "scalar A"
  simpa [typesApart, unnamedCount, List.countP_replicate] using isLast

/-- The place of a type in a schema, if it was built. -/
def originIn? (name : String) : Except SchemaFailure Schema → Option Origin
  | .ok schema => (schema.type? name).map TypeDef.origin
  | .error _ => none

/-- **Two texts can have the same path.**  Of many texts without a path, all of which are
loaded, the first and the last are known by the path `str://0`, and so the types that they
define are said to be at the same place. -/
theorem unnamed_paths_shared :
    let built := Draft.empty.loadAll (typesApart 65535) >>= Draft.build
    originIn? "Query" built = some (.source ⟨some "str://0", ⟨1, 1⟩⟩) ∧
      originIn? "A" built = some (.source ⟨some "str://0", ⟨1, 1⟩⟩) ∧
      UnnamedAt (typesApart 65535) 0 0 ∧ UnnamedAt (typesApart 65535) 65536 65536 ∧
      Draft.pathAt? (typesApart 65535) 0 = Draft.pathAt? (typesApart 65535) 65536 := by
  intro built
  have loaded : originIn? "Query" built = some (.source ⟨some "str://0", ⟨1, 1⟩⟩) ∧
      originIn? "A" built = some (.source ⟨some "str://0", ⟨1, 1⟩⟩) := by
    unfold built
    rw [loadAll_typesApart]
    decide +kernel
  have first : UnnamedAt (typesApart 65535) 0 0 := ⟨⟨_, rfl⟩, rfl⟩
  have final := unnamedAt_typesApart 65535
  refine ⟨loaded.1, loaded.2, first, final, ?_⟩
  cases ok : Draft.empty.loadAll (typesApart 65535) with
  | error failure =>
      have notBuilt := loaded.1
      unfold built at notBuilt
      rw [ok] at notBuilt
      cases notBuilt
  | ok d =>
      rw [Draft.pathAt?_of_unnamedAt ok first, Draft.pathAt?_of_unnamedAt ok final]
      rfl

end GraphQLStatics
