/-!
# Maps in insertion order

A map from names to values that remembers the order in which its names were
first inserted.  Inserting under a name that is present replaces the value and
keeps the place.

## Main Definitions

* `OrderedMap`, `OrderedMap.find?`, `OrderedMap.insert`
* `OrderedMap.insertAll`, `OrderedMap.ofList`

## Main Statements

* `OrderedMap.keys_insert`: a new name goes to the end
* `OrderedMap.find?_insert`: look-up after an insertion
-/

namespace GraphQLStatics

/-- A map from names to values in insertion order. -/
structure OrderedMap (α : Type) where
  entries : List (String × α)
  nodup : (entries.map Prod.fst).Nodup

namespace OrderedMap

variable {α : Type}

@[ext] theorem ext {m n : OrderedMap α} (h : m.entries = n.entries) : m = n := by
  cases m; cases n; simp_all

/-- The names of a map, in order. -/
def keys (m : OrderedMap α) : List String :=
  m.entries.map Prod.fst

/-- The values of a map, in order. -/
def values (m : OrderedMap α) : List α :=
  m.entries.map Prod.snd

/-- The map without entries. -/
def empty : OrderedMap α := ⟨[], List.nodup_nil⟩

/-- The value under a name. -/
def find? (m : OrderedMap α) (name : String) : Option α :=
  m.entries.lookup name

/-- Whether a name is present. -/
def contains (m : OrderedMap α) (name : String) : Bool :=
  (m.find? name).isSome

/-! ### Insertion -/

/-- Put a value under a name, at the name's place if it has one and at the end
otherwise. -/
def insertEntry (name : String) (a : α) : List (String × α) → List (String × α)
  | [] => [(name, a)]
  | (key, b) :: rest =>
    if key = name then (name, a) :: rest else (key, b) :: insertEntry name a rest

theorem map_fst_insertEntry (name : String) (a : α) (l : List (String × α)) :
    (insertEntry name a l).map Prod.fst =
      if name ∈ l.map Prod.fst then l.map Prod.fst else l.map Prod.fst ++ [name] := by
  induction l with
  | nil => simp [insertEntry]
  | cons e rest ih =>
    obtain ⟨key, b⟩ := e
    by_cases h : key = name
    · simp [insertEntry, h]
    · simp only [insertEntry, h, if_false, List.map_cons, ih, List.mem_cons, Ne.symm h,
        false_or]
      split <;> simp

theorem nodup_insertEntry (name : String) (a : α) {l : List (String × α)}
    (h : (l.map Prod.fst).Nodup) : ((insertEntry name a l).map Prod.fst).Nodup := by
  rw [map_fst_insertEntry]
  split
  · exact h
  · next hn =>
    refine List.nodup_append.2 ⟨h, by simp, ?_⟩
    intro x hx y hy hxy
    rw [List.mem_singleton.1 hy] at hxy
    exact hn (hxy ▸ hx)

/-- Put a value under a name. -/
def insert (m : OrderedMap α) (name : String) (a : α) : OrderedMap α :=
  ⟨insertEntry name a m.entries, nodup_insertEntry name a m.nodup⟩

/-- A name that is present keeps its place, and a new name goes to the end. -/
theorem keys_insert (m : OrderedMap α) (name : String) (a : α) :
    (m.insert name a).keys = if name ∈ m.keys then m.keys else m.keys ++ [name] :=
  map_fst_insertEntry name a m.entries

theorem lookup_insertEntry (name : String) (a : α) (l : List (String × α)) (key : String) :
    (insertEntry name a l).lookup key = if key = name then some a else l.lookup key := by
  induction l with
  | nil =>
    by_cases h : key = name
    · simp [insertEntry, h]
    · simp [insertEntry, List.lookup_cons, beq_false_of_ne h, h]
  | cons e rest ih =>
    obtain ⟨other, b⟩ := e
    by_cases ho : other = name
    · subst ho
      by_cases h : key = other
      · simp [insertEntry, h]
      · simp [insertEntry, List.lookup_cons, beq_false_of_ne h, h]
    · by_cases hk : key = other
      · subst hk
        simp [insertEntry, ho]
      · simp [insertEntry, ho, List.lookup_cons, beq_false_of_ne hk, ih]

/-- Look-up after an insertion. -/
theorem find?_insert (m : OrderedMap α) (name : String) (a : α) (key : String) :
    (m.insert name a).find? key = if key = name then some a else m.find? key :=
  lookup_insertEntry name a m.entries key

/-- Insert entries one after another. -/
def insertAll (m : OrderedMap α) (entries : List (String × α)) : OrderedMap α :=
  entries.foldl (fun m e => m.insert e.1 e.2) m

/-- The map of the given entries; of two with one name the first gives the
place and the last the value. -/
def ofList (entries : List (String × α)) : OrderedMap α :=
  empty.insertAll entries

end OrderedMap

end GraphQLStatics
