import Mathlib.Data.List.Forall2

/-!
# Lists that enumerate places

A traversal gives a list, and what it should give is known place by place: a
function says what is found at every place.  The list is right if it gives what
is found at each place, for every place once.

`Enumerates` says so without reference to an order of places, and `EnumeratesIn`
for a given order.  Traversals are put together from smaller ones, and for each
way of doing that there is a lemma about enumerations.  `ReportsIn` says the same
where a relation takes the place of the function.

## Main Definitions

* `EnumeratesIn`: a list gives what is found at each place, in an order of places
* `Enumerates`: a list gives what is found at each place, once
* `ReportsIn`: a list gives what a relation has at each place, in an order of places

## Main Statements

* `Enumerates.mem_iff`: what is listed is what is found somewhere
* `EnumeratesIn.sum`, `EnumeratesIn.bind`, `EnumeratesIn.filterMap`: enumerations
  that are put together from others
* `EnumeratesIn.rename`: places can be given other names
* `EnumeratesIn.reportsIn_flatMap`: what is found may contribute an element or not
-/

namespace GraphQLStatics

/-- The list gives what `at?` finds at each place, for every place once and in the
given order of places. -/
def EnumeratesIn {α β : Type} (before : α → α → Prop) (at? : α → Option β) (l : List β) : Prop :=
  ∃ places : List α, places.Pairwise before ∧ places.map at? = l.map some ∧
    ∀ a, (at? a).isSome → a ∈ places

/-- The list gives what `at?` finds at each place, for every place once. -/
def Enumerates {α β : Type} (at? : α → Option β) (l : List β) : Prop :=
  ∃ places : List α, places.Nodup ∧ places.map at? = l.map some ∧
    ∀ a, (at? a).isSome → a ∈ places

/-- The list gives what the relation has at each place, which is one thing at most, for
every place once and in the given order of places. -/
def ReportsIn {α β : Type} (before : α → α → Prop) (has : α → β → Prop) (l : List β) : Prop :=
  ∃ found : List (α × β), (found.map Prod.fst).Pairwise before ∧ (found.map Prod.fst).Nodup ∧
    found.map Prod.snd = l ∧ ∀ a b, (a, b) ∈ found ↔ has a b

variable {α α' β γ : Type} {at? : α → Option β} {l : List β}

/-! ### Relations -/

namespace ReportsIn

variable {before : α → α → Prop} {before' : α' → α' → Prop} {l' : List β}

/-- Where no place is before itself, each place counts once. -/
theorem of_irrefl {has : α → β → Prop} (irrefl : ∀ a, ¬ before a a) {found : List (α × β)}
    (ordered : (found.map Prod.fst).Pairwise before) (isFound : ∀ a b, (a, b) ∈ found ↔ has a b) :
    ReportsIn before has (found.map Prod.snd) := by
  refine ⟨found, ordered, ordered.imp ?_, rfl, isFound⟩
  rintro a _ isBefore rfl
  exact irrefl a isBefore

theorem congr {has has' : α → β → Prop} (h : ReportsIn before has l)
    (same : ∀ a b, has a b ↔ has' a b) : ReportsIn before has' l := by
  obtain ⟨found, ordered, nodup, listed, isFound⟩ := h
  exact ⟨found, ordered, nodup, listed, fun a b => (isFound a b).trans (same a b)⟩

/-- Where places are of two sorts, what is at places of the first can be put before what
is at places of the second. -/
theorem append {order : γ → γ → Prop} {has : γ → β → Prop} {first : α → γ} {second : α' → γ}
    (h : ReportsIn before (fun a => has (first a)) l)
    (h' : ReportsIn before' (fun a => has (second a)) l') (irrefl : ∀ c, ¬ order c c)
    (monotone : ∀ a b, before a b → order (first a) (first b))
    (monotone' : ∀ a b, before' a b → order (second a) (second b))
    (inTurn : ∀ a b, order (first a) (second b))
    (covered : ∀ c, (∃ a, first a = c) ∨ ∃ a, second a = c) :
    ReportsIn order has (l ++ l') := by
  obtain ⟨found, ordered, -, rfl, isFound⟩ := h
  obtain ⟨found', ordered', -, rfl, isFound'⟩ := h'
  have listed : found.map Prod.snd ++ found'.map Prod.snd =
      (found.map (Prod.map first id) ++ found'.map (Prod.map second id)).map Prod.snd := by
    simp [Function.comp_def]
  rw [listed]
  refine of_irrefl irrefl ?_ fun c b => ?_
  · rw [List.pairwise_map] at ordered ordered' ⊢
    rw [List.pairwise_append, List.pairwise_map, List.pairwise_map]
    refine ⟨ordered.imp (monotone _ _), ordered'.imp (monotone' _ _), ?_⟩
    intro _ mem _ mem'
    obtain ⟨p, -, rfl⟩ := List.mem_map.mp mem
    obtain ⟨q, -, rfl⟩ := List.mem_map.mp mem'
    exact inTurn p.1 q.1
  · rw [List.mem_append, List.mem_map, List.mem_map]
    constructor
    · rintro (⟨⟨a, b'⟩, mem, same⟩ | ⟨⟨a, b'⟩, mem, same⟩)
      · cases same
        exact (isFound a b').mp mem
      · cases same
        exact (isFound' a b').mp mem
    · intro isAt
      rcases covered c with ⟨a, rfl⟩ | ⟨a, rfl⟩
      · exact .inl ⟨(a, b), (isFound a b).mpr isAt, rfl⟩
      · exact .inr ⟨(a, b), (isFound' a b).mpr isAt, rfl⟩

end ReportsIn

/-! ### In an order -/

namespace EnumeratesIn

variable {before : α → α → Prop} {before' : α' → α' → Prop}

theorem mono {weaker : α → α → Prop} (h : EnumeratesIn before at? l)
    (imp : ∀ a b, before a b → weaker a b) : EnumeratesIn weaker at? l := by
  obtain ⟨places, ordered, found, complete⟩ := h
  exact ⟨places, ordered.imp (imp _ _), found, complete⟩

/-- Where no place is before itself, each place counts once. -/
theorem enumerates (h : EnumeratesIn before at? l) (irrefl : ∀ a, ¬ before a a) :
    Enumerates at? l := by
  have differ : ∀ a b, before a b → a ≠ b := by
    rintro a _ isBefore rfl
    exact irrefl a isBefore
  exact h.mono differ

/-- The places can be paired with what is found at them. -/
theorem reportsIn (h : EnumeratesIn before at? l) (irrefl : ∀ a, ¬ before a a) :
    ReportsIn before (fun a b => at? a = some b) l := by
  obtain ⟨places, ordered, found, complete⟩ := h
  have listed : l = (places.filterMap fun a => (at? a).map (Prod.mk a)).map Prod.snd := by
    calc l = (l.map some).filterMap id := by simp [List.filterMap_map]
      _ = (places.map at?).filterMap id := by rw [found]
      _ = (places.filterMap fun a => (at? a).map (Prod.mk a)).map Prod.snd := by
        simp [List.map_filterMap, List.filterMap_map, Function.comp_def]
  rw [listed]
  refine .of_irrefl irrefl ?_ fun a b => ?_
  · refine List.pairwise_map.mpr (List.Pairwise.filterMap _ ?_ ordered)
    intro a a' isBefore p atPlace q atPlace'
    obtain ⟨b, -, rfl⟩ := Option.map_eq_some_iff.mp atPlace
    obtain ⟨b', -, rfl⟩ := Option.map_eq_some_iff.mp atPlace'
    exact isBefore
  · rw [List.mem_filterMap]
    constructor
    · rintro ⟨a', -, atPlace⟩
      obtain ⟨b', atPlace, same⟩ := Option.map_eq_some_iff.mp atPlace
      cases same
      exact atPlace
    · intro atPlace
      exact ⟨a, complete a (by simp [atPlace]), by simp [atPlace]⟩

/-- What is listed is what is found somewhere. -/
theorem mem_iff (h : EnumeratesIn before at? l) {b : β} : b ∈ l ↔ ∃ a, at? a = some b := by
  obtain ⟨places, -, found, complete⟩ := h
  have listed : b ∈ l ↔ some b ∈ places.map at? := by
    rw [found]
    simp
  rw [listed, List.mem_map]
  constructor
  · rintro ⟨a, -, atPlace⟩
    exact ⟨a, atPlace⟩
  · rintro ⟨a, atPlace⟩
    exact ⟨a, complete a (by simp [atPlace]), atPlace⟩

/-- Nothing is found. -/
theorem nil (none : ∀ a, at? a = none) : EnumeratesIn before at? [] := by
  refine ⟨[], .nil, rfl, ?_⟩
  intro a isSome
  simp [none a] at isSome

/-- Something is found at one place. -/
theorem singleton (place : α) {b : β} (atPlace : at? place = some b)
    (only : ∀ a, (at? a).isSome → a = place) : EnumeratesIn before at? [b] := by
  refine ⟨[place], List.pairwise_singleton _ _, by simp [atPlace], ?_⟩
  intro a isSome
  exact List.mem_singleton.mpr (only a isSome)

/-- The elements of a list are found at its indices. -/
theorem getElem? (l : List β) : EnumeratesIn (· < ·) (fun i : Nat => l[i]?) l := by
  refine ⟨List.range l.length, List.pairwise_lt_range, ?_, ?_⟩
  · refine List.ext_getElem (by simp) ?_
    intro i inRange inList
    have inRange : i < l.length := by simpa using inRange
    simp [inRange]
  · intro i isSome
    simpa using isSome

/-- Places of two kinds. -/
theorem sum {at'? : α' → Option β} {l' : List β} (h : EnumeratesIn before at? l)
    (h' : EnumeratesIn before' at'? l') :
    EnumeratesIn (Sum.Lex before before') (Sum.elim at? at'?) (l ++ l') := by
  obtain ⟨places, ordered, found, complete⟩ := h
  obtain ⟨places', ordered', found', complete'⟩ := h'
  refine ⟨places.map Sum.inl ++ places'.map Sum.inr, ?_, ?_, ?_⟩
  · refine List.pairwise_append.mpr ⟨?_, ?_, ?_⟩
    · exact List.pairwise_map.mpr (ordered.imp Sum.Lex.inl)
    · exact List.pairwise_map.mpr (ordered'.imp Sum.Lex.inr)
    · intro _ left _ right
      obtain ⟨a, -, rfl⟩ := List.mem_map.mp left
      obtain ⟨a', -, rfl⟩ := List.mem_map.mp right
      exact .sep a a'
  · simp [Function.comp_def, found, found']
  · rintro (a | a') isSome
    · exact List.mem_append_left _ (List.mem_map_of_mem (complete a isSome))
    · exact List.mem_append_right _ (List.mem_map_of_mem (complete' a' isSome))

/-- Places within what is found at other places. -/
theorem bind {inner? : β → α' → Option γ} {inner : β → List γ} (h : EnumeratesIn before at? l)
    (within : ∀ b ∈ l, EnumeratesIn before' (inner? b) (inner b)) :
    EnumeratesIn (Prod.Lex before before')
      (fun p : α × α' => (at? p.1).bind fun b => inner? b p.2) (l.flatMap inner) := by
  classical
  have places' : ∀ b, ∃ places' : List α', b ∈ l → places'.Pairwise before' ∧
      places'.map (inner? b) = (inner b).map some ∧
      ∀ a', (inner? b a').isSome → a' ∈ places' := by
    intro b
    by_cases mem : b ∈ l
    · exact (within b mem).imp fun _ h _ => h
    · exact ⟨[], fun isIn => absurd isIn mem⟩
  choose below spec using places'
  have mem_l : ∀ {a b}, at? a = some b → b ∈ l := fun {a b} atPlace => h.mem_iff.mpr ⟨a, atPlace⟩
  obtain ⟨places, ordered, found, complete⟩ := h
  refine ⟨places.flatMap fun a => ((at? a).elim [] below).map (Prod.mk a), ?_, ?_, ?_⟩
  · refine List.pairwise_flatMap.mpr ⟨?_, ?_⟩
    · intro a _
      cases atPlace : at? a with
      | none => exact .nil
      | some b =>
          exact List.pairwise_map.mpr ((spec b (mem_l atPlace)).1.imp (Prod.Lex.right a))
    · refine ordered.imp ?_
      intro a a' isBefore p left q right
      obtain ⟨_, -, rfl⟩ := List.mem_map.mp left
      obtain ⟨_, -, rfl⟩ := List.mem_map.mp right
      exact .left _ _ isBefore
  · -- What is found below a place depends on what is found at it only.
    have atPlaces : ∀ a, (((at? a).elim [] below).map (Prod.mk a)).map
        (fun p : α × α' => (at? p.1).bind fun b => inner? b p.2) =
          (at? a).elim [] fun b => (inner b).map some := by
      intro a
      cases atPlace : at? a with
      | none => rfl
      | some b =>
          simp only [Option.elim_some, List.map_map, Function.comp_def, atPlace,
            Option.bind_some]
          exact (spec b (mem_l atPlace)).2.1
    calc (places.flatMap fun a => ((at? a).elim [] below).map (Prod.mk a)).map
            (fun p : α × α' => (at? p.1).bind fun b => inner? b p.2)
        = places.flatMap fun a => (at? a).elim [] fun b => (inner b).map some := by
          rw [List.map_flatMap]
          exact List.flatMap_congr fun a _ => atPlaces a
      _ = (places.map at?).flatMap fun found => found.elim [] fun b => (inner b).map some := by
          rw [List.flatMap_map]
      _ = (l.flatMap inner).map some := by
          rw [found, List.flatMap_map, List.map_flatMap]
          rfl
  · rintro ⟨a, a'⟩ isSome
    cases atPlace : at? a with
    | none => simp [atPlace] at isSome
    | some b =>
        simp only [atPlace, Option.bind_some] at isSome
        refine List.mem_flatMap.mpr ⟨a, complete a (by simp [atPlace]), ?_⟩
        rw [atPlace]
        exact List.mem_map_of_mem ((spec b (mem_l atPlace)).2.2 a' isSome)

theorem filter_isSome_map (f : β → Option γ) (l : List β) :
    (l.map f).filter Option.isSome = (l.filterMap f).map some := by
  induction l with
  | nil => rfl
  | cons b rest ih =>
      cases atHead : f b with
      | none => simpa [atHead] using ih
      | some c => simpa [atHead] using ih

/-- Only some of what is found is listed, and in another form. -/
theorem filterMap (h : EnumeratesIn before at? l) (f : β → Option γ) :
    EnumeratesIn before (fun a => (at? a).bind f) (l.filterMap f) := by
  obtain ⟨places, ordered, found, complete⟩ := h
  refine ⟨places.filter fun a => ((at? a).bind f).isSome, ordered.filter _, ?_, ?_⟩
  · calc (places.filter fun a => ((at? a).bind f).isSome).map (fun a => (at? a).bind f)
        = ((places.map at?).map (·.bind f)).filter Option.isSome := by
          rw [List.map_map, List.filter_map]
          rfl
      _ = (l.map f).filter Option.isSome := by
          rw [found, List.map_map]
          rfl
      _ = (l.filterMap f).map some := filter_isSome_map f l
  · intro a isSome
    refine List.mem_filter.mpr ⟨complete a ?_, isSome⟩
    cases atPlace : at? a with
    | none => simp [atPlace] at isSome
    | some b => rfl

/-- What is found is listed in another form. -/
theorem map (h : EnumeratesIn before at? l) (f : β → γ) :
    EnumeratesIn before (fun a => (at? a).map f) (l.map f) := by
  have mapped := h.filterMap (some ∘ f)
  simpa only [List.filterMap_eq_map, Option.map_eq_bind] using mapped

/-- What is found at a place contributes at most one element. -/
theorem reportsIn_flatMap (h : EnumeratesIn before at? l) (irrefl : ∀ a, ¬ before a a)
    {f : β → List γ} (atMostOne : ∀ b, (f b).length ≤ 1) :
    ReportsIn before (fun a c => ∃ b, at? a = some b ∧ c ∈ f b) (l.flatMap f) := by
  have single : ∀ b, (f b).head?.toList = f b := by
    intro b
    match f b, atMostOne b with
    | [], _ => rfl
    | [c], _ => rfl
  have listed := (h.filterMap fun b => (f b).head?).reportsIn irrefl
  rw [List.filterMap_eq_flatMap_toList] at listed
  simp only [single] at listed
  refine listed.congr fun a c => ?_
  rw [Option.bind_eq_some_iff]
  refine exists_congr fun b => and_congr_right fun _ => ?_
  rw [← Option.mem_toList, single]

/-- The places at which something is found can be given other names. -/
theorem rename {at'? : α' → Option β} (h : EnumeratesIn before at? l) (name : α → α')
    (monotone : ∀ a b, (at? a).isSome → (at? b).isSome → before a b → before' (name a) (name b))
    (same : ∀ a, (at? a).isSome → at'? (name a) = at? a)
    (named : ∀ a', (at'? a').isSome → ∃ a, (at? a).isSome ∧ name a = a') :
    EnumeratesIn before' at'? l := by
  obtain ⟨places, ordered, found, complete⟩ := h
  have live : ∀ a ∈ places, (at? a).isSome := by
    intro a mem
    have listed : at? a ∈ l.map some := found ▸ List.mem_map_of_mem mem
    obtain ⟨b, -, atPlace⟩ := List.mem_map.mp listed
    simp [← atPlace]
  refine ⟨places.map name, ?_, ?_, ?_⟩
  · refine List.pairwise_map.mpr (ordered.imp_of_mem ?_)
    exact fun mem mem' => monotone _ _ (live _ mem) (live _ mem')
  · rw [List.map_map, ← found]
    exact List.map_congr_left fun a mem => same a (live a mem)
  · intro a' isSome
    obtain ⟨a, isLive, rfl⟩ := named a' isSome
    exact List.mem_map_of_mem (complete a isLive)

end EnumeratesIn

/-! ### In any order -/

namespace Enumerates

/-- Different places are before each other. -/
theorem iff_enumeratesIn : Enumerates at? l ↔ EnumeratesIn (· ≠ ·) at? l :=
  Iff.rfl

/-- What is listed is what is found somewhere. -/
theorem mem_iff (h : Enumerates at? l) {b : β} : b ∈ l ↔ ∃ a, at? a = some b :=
  (iff_enumeratesIn.mp h).mem_iff

/-- The places can be listed in the order of what is found at them. -/
theorem exists_places (h : Enumerates at? l) :
    ∃ places : List α, places.Nodup ∧ places.length = l.length ∧
      ∀ a b, at? a = some b ↔ ∃ i : Nat, places[i]? = some a ∧ l[i]? = some b := by
  obtain ⟨places, nodup, found, complete⟩ := h
  have sameLength : places.length = l.length := by
    simpa using congrArg List.length found
  have pointwise : ∀ i : Nat, (places[i]?).map at? = (l[i]?).map some := by
    intro i
    rw [← List.getElem?_map, found, List.getElem?_map]
  refine ⟨places, nodup, sameLength, ?_⟩
  intro a b
  constructor
  · intro atPlace
    obtain ⟨i, isPlace⟩ := List.mem_iff_getElem?.mp (complete a (by simp [atPlace]))
    have atIndex := pointwise i
    rw [isPlace, Option.map_some, atPlace] at atIndex
    obtain ⟨c, isListed, same⟩ := Option.map_eq_some_iff.mp atIndex.symm
    exact ⟨i, isPlace, isListed.trans same⟩
  · rintro ⟨i, isPlace, isListed⟩
    have atIndex := pointwise i
    rw [isPlace, isListed, Option.map_some, Option.map_some] at atIndex
    exact Option.some.inj atIndex

/-- The places can be listed along with what is found at them. -/
theorem exists_forall₂ (h : Enumerates at? l) :
    ∃ places : List α, places.Nodup ∧ List.Forall₂ (fun a b => at? a = some b) places l ∧
      ∀ a b, at? a = some b → a ∈ places := by
  obtain ⟨found, -, nodup, rfl, isFound⟩ :=
    (iff_enumeratesIn.mp h).reportsIn fun a differs => differs rfl
  refine ⟨found.map Prod.fst, nodup, ?_, fun a b atPlace => ?_⟩
  · rw [List.forall₂_map_left_iff, List.forall₂_map_right_iff, List.forall₂_same]
    exact fun p mem => (isFound p.1 p.2).mp mem
  · exact List.mem_map_of_mem ((isFound a b).mpr atPlace)

/-- Nothing is found. -/
theorem nil (none : ∀ a, at? a = none) : Enumerates at? [] :=
  EnumeratesIn.nil none

/-- Something is found at one place. -/
theorem singleton (place : α) {b : β} (atPlace : at? place = some b)
    (only : ∀ a, (at? a).isSome → a = place) : Enumerates at? [b] :=
  EnumeratesIn.singleton place atPlace only

/-- The elements of a list are found at its indices. -/
theorem getElem? (l : List β) : Enumerates (fun i : Nat => l[i]?) l :=
  (EnumeratesIn.getElem? l).enumerates Nat.lt_irrefl

/-- Places of two kinds. -/
theorem sum {at'? : α' → Option β} {l' : List β} (h : Enumerates at? l)
    (h' : Enumerates at'? l') : Enumerates (Sum.elim at? at'?) (l ++ l') := by
  refine ((iff_enumeratesIn.mp h).sum (iff_enumeratesIn.mp h')).enumerates ?_
  rintro a (⟨differ⟩ | ⟨differ⟩) <;> exact differ rfl

/-- Places within what is found at other places. -/
theorem bind {inner? : β → α' → Option γ} {inner : β → List γ} (h : Enumerates at? l)
    (within : ∀ b ∈ l, Enumerates (inner? b) (inner b)) :
    Enumerates (fun p : α × α' => (at? p.1).bind fun b => inner? b p.2) (l.flatMap inner) := by
  have inOrder := (iff_enumeratesIn.mp h).bind fun b mem => iff_enumeratesIn.mp (within b mem)
  refine inOrder.enumerates ?_
  rintro p (⟨_, _, differ⟩ | ⟨_, differ⟩) <;> exact differ rfl

/-- Only some of what is found is listed, and in another form. -/
theorem filterMap (h : Enumerates at? l) (f : β → Option γ) :
    Enumerates (fun a => (at? a).bind f) (l.filterMap f) :=
  (iff_enumeratesIn.mp h).filterMap f

/-- What is found is listed in another form. -/
theorem map (h : Enumerates at? l) (f : β → γ) :
    Enumerates (fun a => (at? a).map f) (l.map f) :=
  (iff_enumeratesIn.mp h).map f

/-- The places at which something is found can be given other names. -/
theorem rename {at'? : α' → Option β} (h : Enumerates at? l) (name : α → α')
    (injective : ∀ a b, (at? a).isSome → (at? b).isSome → name a = name b → a = b)
    (same : ∀ a, (at? a).isSome → at'? (name a) = at? a)
    (named : ∀ a', (at'? a').isSome → ∃ a, (at? a).isSome ∧ name a = a') :
    Enumerates at'? l :=
  (iff_enumeratesIn.mp h).rename name
    (fun a b live live' => mt (injective a b live live')) same named

end Enumerates

end GraphQLStatics
