import GraphQLStatics.Proofs.RunCover

/-!
# Texts as bytes

The bytes of a text can be read by index, also where no character begins.  ASCII
characters are single bytes, and all bytes of other characters are above 127.  So
whoever looks for ASCII characters finds them where they stand in the text, and an
index at which such a character was found does not lie within a character.

## Main Definitions

* `Bytes.bytesOf`, `Bytes.encode`: the bytes of a text
* `Bytes.slice?`: cutting a text at byte offsets, which fails within a character
* `Bytes.standsAt`, `Bytes.skipWhile`: reading bytes by index

## Main Statements

* `Bytes.isValid_iff_isBoundary`: where a text can be cut
* `Bytes.slice?_append`: cutting between characters gives what stands there
* `Bytes.skip_high`: what passes over every byte above 127 passes over characters
* `Bytes.skipWhile_encode`, `Bytes.standsAt_encode`: reading bytes and reading characters
-/

namespace GraphQLStatics

open Text

namespace Bytes

/-- The UTF-8 bytes of a text, each of them as the character with its number.  Only the
bytes below 128 are characters of the text themselves. -/
def bytesOf (text : String) : List Char :=
  text.toByteArray.data.toList.map Char.ofUInt8

/-- The text between two byte offsets.  There is none unless both are boundaries of
characters of the text, in order. -/
def slice? (text : String) (start stop : Nat) : Option String :=
  if h : String.Pos.Raw.IsValid text ⟨start⟩ ∧ String.Pos.Raw.IsValid text ⟨stop⟩ ∧
      start ≤ stop then
    some (text.slice (text.pos ⟨start⟩ h.1) (text.pos ⟨stop⟩ h.2.1) h.2.2).copy
  else none

/-- The bytes of a character. -/
def encodeChar (c : Char) : List Char :=
  (String.utf8EncodeChar c).map Char.ofUInt8

/-- The bytes of some characters. -/
def encode (cs : List Char) : List Char :=
  cs.flatMap encodeChar

theorem bytesOf_ofList (cs : List Char) : bytesOf (String.ofList cs) = encode cs := by
  rw [bytesOf, String.toByteArray_ofList, List.utf8Encode, List.data_toByteArray,
    List.map_flatMap]
  rfl

theorem toNat_ofUInt8 (b : UInt8) : (Char.ofUInt8 b).toNat = b.toNat :=
  UInt8.toNat_toUInt32 b

theorem utf8Size_of_ascii {c : Char} (ascii : c.toNat < 128) : c.utf8Size = 1 := by
  rw [Char.utf8Size_eq_one_iff, UInt32.le_iff_toNat_le]
  exact Nat.le_of_lt_succ ascii

theorem encodeChar_of_ascii {c : Char} (ascii : c.toNat < 128) : encodeChar c = [c] := by
  rw [encodeChar, String.utf8EncodeChar_eq_singleton (utf8Size_of_ascii ascii),
    List.map_singleton]
  congr 1
  rw [← Char.toNat_inj, toNat_ofUInt8]
  show c.toNat % 256 = c.toNat
  omega

theorem high_of_mem_encodeChar {c : Char} (high : 128 ≤ c.toNat) :
    ∀ d ∈ encodeChar c, 128 ≤ d.toNat := by
  intro d mem
  obtain ⟨b, isByte, rfl⟩ := List.mem_map.mp mem
  rw [toNat_ofUInt8]
  have high : ¬ c.val.toNat ≤ 127 := Nat.not_le.mpr high
  simp only [String.utf8EncodeChar, if_neg high] at isByte
  split at isByte
  · simp only [List.mem_cons, List.not_mem_nil, or_false] at isByte
    rcases isByte with rfl | rfl <;> simp only [UInt8.toNat_ofNat'] <;> omega
  · split at isByte
    · simp only [List.mem_cons, List.not_mem_nil, or_false] at isByte
      rcases isByte with rfl | rfl | rfl <;> simp only [UInt8.toNat_ofNat'] <;> omega
    · simp only [List.mem_cons, List.not_mem_nil, or_false] at isByte
      rcases isByte with rfl | rfl | rfl | rfl <;> simp only [UInt8.toNat_ofNat'] <;> omega

theorem length_encodeChar (c : Char) : (encodeChar c).length = c.utf8Size := by
  rw [encodeChar, List.length_map, String.length_utf8EncodeChar]

/-- The first byte of a character above 127 is above 127. -/
theorem encodeChar_of_high {c : Char} (high : 128 ≤ c.toNat) :
    ∃ d more, encodeChar c = d :: more ∧ 128 ≤ d.toNat := by
  have size := c.utf8Size_pos
  cases eq : encodeChar c with
  | nil =>
      rw [← length_encodeChar, eq] at size
      cases size
  | cons d more => exact ⟨d, more, rfl, high_of_mem_encodeChar high d (eq ▸ List.mem_cons_self)⟩

theorem length_encode (cs : List Char) : (encode cs).length = byteLength cs := by
  induction cs with
  | nil => rfl
  | cons c cs ih =>
      rw [encode, List.flatMap_cons, List.length_append, length_encodeChar]
      exact congrArg _ ih

theorem encode_append (a b : List Char) : encode (a ++ b) = encode a ++ encode b :=
  List.flatMap_append

theorem rawEndPos_ofList (cs : List Char) : (String.ofList cs).rawEndPos = ⟨byteLength cs⟩ := by
  rw [← utf8ByteSize_ofList]
  rfl

theorem isValid_iff_isBoundary (text : String) (i : Nat) :
    String.Pos.Raw.IsValid text ⟨i⟩ ↔ IsBoundary text.toList i := by
  rw [String.Pos.Raw.isValid_iff_exists_append]
  constructor
  · rintro ⟨a, b, rfl, eq⟩
    refine ⟨a.toList, b.toList, String.toList_append, ?_⟩
    rw [byteLength_toList]
    exact (congrArg String.Pos.Raw.byteIdx eq).symm
  · rintro ⟨before, after, split, rfl⟩
    refine ⟨String.ofList before, String.ofList after, ?_, ?_⟩
    · rw [← String.ofList_append, ← split, String.ofList_toList]
    · exact (rawEndPos_ofList before).symm

theorem slice?_append (a b c : List Char) :
    slice? (String.ofList (a ++ (b ++ c))) (byteLength a) (byteLength a + byteLength b) =
      some (String.ofList b) := by
  have text : String.ofList (a ++ (b ++ c)) =
      String.ofList a ++ (String.ofList b ++ String.ofList c) := by
    rw [String.ofList_append, String.ofList_append]
  have sizes : byteLength a + byteLength b = byteLength (a ++ b) := (byteLength_append a b).symm
  have valid : String.Pos.Raw.IsValid (String.ofList (a ++ (b ++ c))) ⟨byteLength a⟩ ∧
      String.Pos.Raw.IsValid (String.ofList (a ++ (b ++ c))) ⟨byteLength a + byteLength b⟩ ∧
      byteLength a ≤ byteLength a + byteLength b := by
    rw [isValid_iff_isBoundary, isValid_iff_isBoundary, String.toList_ofList]
    exact ⟨⟨a, b ++ c, rfl, rfl⟩, ⟨a ++ b, c, by simp, sizes.symm⟩, Nat.le_add_right _ _⟩
  have first : ((String.ofList (a ++ (b ++ c))).pos ⟨byteLength a⟩ valid.1).Splits
      (String.ofList a) (String.ofList b ++ String.ofList c) :=
    ⟨text, (rawEndPos_ofList a).symm⟩
  have second : ((String.ofList (a ++ (b ++ c))).pos ⟨byteLength a + byteLength b⟩
      valid.2.1).Splits (String.ofList a ++ String.ofList b) (String.ofList c) := by
    refine ⟨text.trans String.append_assoc.symm, ?_⟩
    rw [← String.ofList_append, rawEndPos_ofList, ← sizes]
    rfl
  obtain ⟨_, copied⟩ := String.copy_slice_eq_iff_splits.mpr ⟨_, _, first, second⟩
  rw [slice?, dif_pos valid]
  exact congrArg some copied

/-! ### Reading by index -/

/-- Whether some characters stand at an index. -/
def standsAt (word : List Char) (bytes : List Char) (i : Nat) : Bool :=
  word.isPrefixOf (bytes.drop i)

/-- The index after the bytes of some sort that stand at an index. -/
def skipWhile (p : Char → Bool) (bytes : List Char) (i : Nat) : Nat :=
  i + ((bytes.drop i).takeWhile p).length

theorem lt_skipWhile {p : Char → Bool} {bytes : List Char} {i : Nat} {c : Char}
    (at_ : bytes[i]? = some c) (holds : p c = true) : i < skipWhile p bytes i := by
  obtain ⟨inside, rfl⟩ := List.getElem?_eq_some_iff.mp at_
  rw [skipWhile, List.drop_eq_getElem_cons inside, List.takeWhile_cons, if_pos holds]
  simp

/-! ### Bytes and characters -/

/-- A character above 127 is no ASCII character. -/
theorem ne_of_high {c d : Char} (high : 128 ≤ c.toNat) (ascii : d.toNat < 128) : c ≠ d := by
  rintro rfl
  omega

theorem beq_of_high {c d : Char} (high : 128 ≤ c.toNat) (ascii : d.toNat < 128) :
    (c == d) = false :=
  beq_false_of_ne (ne_of_high high ascii)

theorem isPrefixOf_of_high {c d : Char} (high : 128 ≤ c.toNat) (ascii : d.toNat < 128)
    (word cs : List Char) : (d :: word).isPrefixOf (c :: cs) = false := by
  rw [List.isPrefixOf_cons_cons, Bool.beq_comm, beq_of_high high ascii, Bool.false_and]

section

variable {done rest : List Char} {c : Char}

theorem drop_encode (done rest : List Char) :
    (encode (done ++ rest)).drop (byteLength done) = encode rest := by
  rw [encode_append, ← length_encode, List.drop_left]

theorem getElem?_encode_of_ascii (done rest : List Char) (ascii : c.toNat < 128) :
    (encode (done ++ c :: rest))[byteLength done]? = some c := by
  rw [← List.head?_drop, drop_encode, encode, List.flatMap_cons, encodeChar_of_ascii ascii]
  rfl

/-- Within the bytes of a character that is not ASCII. -/
theorem getElem?_encode_of_high (done rest : List Char) (high : 128 ≤ c.toNat) {k : Nat}
    (within : k < c.utf8Size) :
    ∃ d, (encode (done ++ c :: rest))[byteLength done + k]? = some d ∧ 128 ≤ d.toNat := by
  have within' : k < (encodeChar c).length := by rwa [length_encodeChar]
  refine ⟨(encodeChar c)[k], ?_, high_of_mem_encodeChar high _ (List.getElem_mem within')⟩
  rw [← List.getElem?_drop, drop_encode, encode, List.flatMap_cons,
    List.getElem?_append_left within', List.getElem?_eq_getElem within']

/-- What passes over every byte above 127 passes over the rest of a character of such
bytes. -/
theorem skip_high {α : Type} {f : Nat → α}
    (step : ∀ k d, (encode (done ++ c :: rest))[k]? = some d → 128 ≤ d.toNat → f k = f (k + 1))
    (high : 128 ≤ c.toNat) {k : Nat} (within : k ≤ c.utf8Size) :
    f (byteLength done + k) = f (byteLength (done ++ [c])) := by
  obtain ⟨m, size⟩ := Nat.exists_eq_add_of_le within
  induction m generalizing k with
  | zero =>
      rw [byteLength_concat, size]
      rfl
  | succ m ih =>
      obtain ⟨d, at_, isHigh⟩ := getElem?_encode_of_high done rest high
        (show k < c.utf8Size by omega)
      rw [step _ d at_ isHigh]
      exact ih (k := k + 1) (by omega) (by omega)

/-- Bytes of some sort are those of characters of the sort, if all characters above 127
are or none is. -/
theorem takeWhile_encode {p : Char → Bool} (all : Bool)
    (uniform : ∀ c : Char, 128 ≤ c.toNat → p c = all) (cs : List Char) :
    (encode cs).takeWhile p = encode (cs.takeWhile p) := by
  induction cs with
  | nil => rfl
  | cons c cs ih =>
      have cons (a : List Char) : encode (c :: a) = encodeChar c ++ encode a := List.flatMap_cons
      rw [cons, List.takeWhile_cons]
      by_cases ascii : c.toNat < 128
      · rw [encodeChar_of_ascii ascii, List.singleton_append, List.takeWhile_cons]
        split
        · rw [ih, cons, encodeChar_of_ascii ascii]
          rfl
        · rfl
      · have high : 128 ≤ c.toNat := Nat.le_of_not_lt ascii
        rw [uniform c high]
        cases all with
        | true =>
            have bytes : ∀ d ∈ encodeChar c, p d = true :=
              fun d mem => uniform d (high_of_mem_encodeChar high d mem)
            rw [List.takeWhile_append_of_pos bytes, ih, if_pos rfl, cons]
        | false =>
            obtain ⟨d, more, eq, isHigh⟩ := encodeChar_of_high high
            rw [eq, List.cons_append, List.takeWhile_cons, uniform d isHigh]
            rfl

theorem skipWhile_encode {p : Char → Bool} (all : Bool)
    (uniform : ∀ c : Char, 128 ≤ c.toNat → p c = all) (done rest : List Char) :
    skipWhile p (encode (done ++ rest)) (byteLength done) =
      byteLength done + byteLength (rest.takeWhile p) := by
  rw [skipWhile, drop_encode, takeWhile_encode all uniform, length_encode]

/-- ASCII characters stand among the bytes where they stand in the text. -/
theorem standsAt_encode (word : List Char) (ascii : ∀ c ∈ word, c.toNat < 128)
    (done rest : List Char) :
    standsAt word (encode (done ++ rest)) (byteLength done) = word.isPrefixOf rest := by
  rw [standsAt, drop_encode]
  induction word generalizing rest with
  | nil => rw [List.isPrefixOf_nil_left, List.isPrefixOf_nil_left]
  | cons w word ih =>
      cases rest with
      | nil => rfl
      | cons c rest =>
          have lower := ascii w List.mem_cons_self
          rw [encode, List.flatMap_cons]
          by_cases isAscii : c.toNat < 128
          · rw [encodeChar_of_ascii isAscii, List.singleton_append, List.isPrefixOf_cons_cons,
              List.isPrefixOf_cons_cons]
            exact congrArg _ (ih (fun d mem => ascii d (List.mem_cons_of_mem _ mem)) rest)
          · have high : 128 ≤ c.toNat := Nat.le_of_not_lt isAscii
            obtain ⟨d, more, eq, isHigh⟩ := encodeChar_of_high high
            rw [eq, List.cons_append, isPrefixOf_of_high isHigh lower,
              isPrefixOf_of_high high lower]

end

end Bytes

end GraphQLStatics
