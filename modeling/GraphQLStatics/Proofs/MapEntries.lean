import Mathlib.Data.List.Nodup
import GraphQLStatics.OrderedMap

/-!
# The entries of maps in insertion order

Look-up in a map and the list of its entries say the same, because no name has
two entries.  This file goes from one to the other.  In particular, a map that is
filled with a list of entries has each name where it comes first in the list,
with the value that it is given last (`OrderedMap.Gathers`).

## Main Definitions

* `OrderedMap.Gathers`: a map is filled with a list of entries
* `OrderedMap.KeyedBy`: values stand under their own names

## Main Statements

* `OrderedMap.find?_eq_some_iff`: look-up and entries
* `OrderedMap.entries_insert_of_new`, `OrderedMap.entries_insert_of_present`
* `OrderedMap.Gathers.insertAll`: filling in more entries
-/

namespace GraphQLStatics

/-! ### Look-up -/

theorem lookup_eq_none_iff_notMem {α : Type} (entries : List (String × α)) (key : String) :
    entries.lookup key = none ↔ key ∉ entries.map Prod.fst := by
  rw [List.lookup_eq_none_iff, List.mem_map]
  constructor
  · rintro none ⟨e, mem, rfl⟩
    simpa using none e mem
  · intro notMem e mem
    have other : key ≠ e.1 := fun same => notMem ⟨e, mem, same.symm⟩
    simpa using other

namespace OrderedMap

variable {α : Type}

@[simp] theorem find?_empty (key : String) : (empty : OrderedMap α).find? key = none :=
  rfl

/-- After insertions a name has the value that it was given last. -/
theorem find?_insertAll (m : OrderedMap α) (entries : List (String × α)) (key : String) :
    (m.insertAll entries).find? key =
      ((entries.filter (·.1 = key)).getLast?.map Prod.snd).or (m.find? key) := by
  induction entries generalizing m with
  | nil => simp [insertAll]
  | cons e rest ih =>
      have step : m.insertAll (e :: rest) = (m.insert e.1 e.2).insertAll rest := rfl
      rw [step, ih, find?_insert]
      by_cases h : e.1 = key
      · simp [h, List.getLast?_cons, Option.or_some]
      · simp [h, Ne.symm h]

/-- In the map of a list of entries a name has the value of its last entry. -/
theorem find?_ofList (entries : List (String × α)) (key : String) :
    (ofList entries).find? key = (entries.filter (·.1 = key)).getLast?.map Prod.snd := by
  rw [ofList, find?_insertAll]
  simp

theorem find?_eq_none_iff (m : OrderedMap α) (key : String) :
    m.find? key = none ↔ key ∉ m.keys :=
  lookup_eq_none_iff_notMem m.entries key

/-- A name has the value of its entry. -/
theorem find?_eq_some_iff (m : OrderedMap α) (key : String) (a : α) :
    m.find? key = some a ↔ (key, a) ∈ m.entries := by
  obtain ⟨entries, nodup⟩ := m
  show entries.lookup key = some a ↔ (key, a) ∈ entries
  induction entries with
  | nil => simp
  | cons e rest ih =>
      obtain ⟨other, b⟩ := e
      obtain ⟨notBelow, nodup⟩ := List.nodup_cons.mp nodup
      rw [List.lookup_cons, List.mem_cons, Prod.mk.injEq]
      by_cases same : key = other
      · subst same
        have onlyHere : (key, a) ∉ rest :=
          fun mem => notBelow (List.mem_map.mpr ⟨(key, a), mem, rfl⟩)
        simp [onlyHere, eq_comm]
      · rw [beq_false_of_ne same]
        simpa [same] using ih nodup

/-- Values are found by going through the names. -/
theorem filterMap_find?_keys (m : OrderedMap α) :
    m.keys.filterMap m.find? = m.values := by
  have each : ∀ e ∈ m.entries, m.find? e.1 = some e.2 :=
    fun e mem => (m.find?_eq_some_iff e.1 e.2).mpr mem
  rw [keys, values, List.filterMap_map, ← List.filterMap_eq_map]
  exact List.filterMap_congr each

/-! ### Insertion -/

/-- A new name goes to the end. -/
theorem entries_insert_of_new {m : OrderedMap α} {name : String}
    (new : m.find? name = none) (a : α) : (m.insert name a).entries = m.entries ++ [(name, a)] := by
  rw [find?_eq_none_iff, keys] at new
  show insertEntry name a m.entries = _
  generalize m.entries = entries at new
  induction entries with
  | nil => rfl
  | cons e rest ih =>
      rw [List.map_cons, List.mem_cons, not_or] at new
      rw [insertEntry, if_neg (Ne.symm new.1), ih new.2, List.cons_append]

/-- A name that is present keeps its place and has its value replaced. -/
theorem entries_insert_of_present {m : OrderedMap α} {name : String}
    (present : name ∈ m.keys) (a : α) :
    (m.insert name a).entries = m.entries.map fun e => if e.1 = name then (e.1, a) else e := by
  obtain ⟨entries, nodup⟩ := m
  show insertEntry name a entries = _
  replace present : name ∈ entries.map Prod.fst := present
  induction entries with
  | nil => cases present
  | cons e rest ih =>
      obtain ⟨notBelow, nodup⟩ := List.nodup_cons.mp nodup
      rw [insertEntry, List.map_cons]
      by_cases same : e.1 = name
      · -- The name stands nowhere else, so nothing changes in the rest.
        have unchanged : rest.map (fun e => if e.1 = name then (e.1, a) else e) = rest := by
          refine (List.map_congr_left ?_).trans (List.map_id rest)
          intro other mem
          have differs : other.1 ≠ name := by
            rw [← same]
            exact fun again => notBelow (again ▸ List.mem_map_of_mem mem)
          rw [if_neg differs, id]
        rw [if_pos same, if_pos same, unchanged, same]
      · have below : name ∈ rest.map Prod.fst := by
          rw [List.map_cons, List.mem_cons] at present
          exact present.resolve_left (Ne.symm same)
        rw [if_neg same, if_neg same, ih nodup below]

/-! ### Maps of entries -/

/-- The map is filled with the entries: every name stands where it comes first
among them, and has the value that comes last. -/
structure Gathers (m : OrderedMap α) (entries : List (String × α)) : Prop where
  keys_eq : m.keys = (entries.map Prod.fst).eraseDups
  find?_eq : ∀ name, m.find? name = (entries.filter (·.1 = name)).getLast?.map Prod.snd

theorem gathers_empty : (empty : OrderedMap α).Gathers [] :=
  ⟨rfl, fun _ => rfl⟩

theorem Gathers.insert {m : OrderedMap α} {entries : List (String × α)}
    (h : m.Gathers entries) (e : String × α) :
    (m.insert e.1 e.2).Gathers (entries ++ [e]) := by
  constructor
  · rw [keys_insert, h.keys_eq, List.map_append, List.map_singleton, List.eraseDups_append,
      List.removeAll]
    by_cases known : e.1 ∈ entries.map Prod.fst
    · rw [if_pos (List.mem_eraseDups.mpr known)]
      simp [known]
    · rw [if_neg (mt List.mem_eraseDups.mp known)]
      simp [known, List.eraseDups_cons]
  · intro name
    rw [find?_insert, h.find?_eq, List.filter_append, List.getLast?_append]
    by_cases same : e.1 = name
    · simp [same]
    · simp [same, Ne.symm same]

/-- Filling in more entries. -/
theorem Gathers.insertAll {m : OrderedMap α} {entries : List (String × α)}
    (h : m.Gathers entries) (more : List (String × α)) :
    (m.insertAll more).Gathers (entries ++ more) := by
  induction more generalizing m entries with
  | nil => rwa [List.append_nil]
  | cons e rest ih =>
      have rest := ih (h.insert e)
      rwa [List.append_assoc, List.singleton_append] at rest

theorem gathers_ofList (entries : List (String × α)) : (ofList entries).Gathers entries :=
  gathers_empty.insertAll entries

/-- A map that is filled with entries has no others. -/
theorem Gathers.mem_of_mem {m : OrderedMap α} {entries : List (String × α)}
    (h : m.Gathers entries) {e : String × α} (mem : e ∈ m.entries) : e ∈ entries := by
  have found := (m.find?_eq_some_iff e.1 e.2).mpr mem
  rw [h.find?_eq, Option.map_eq_some_iff] at found
  obtain ⟨last, isLast, sameValue⟩ := found
  obtain ⟨mem, sameName⟩ := List.mem_filter.mp (List.mem_of_getLast? isLast)
  have same : last = e := Prod.ext (by simpa using sameName) sameValue
  rwa [← same]

/-! ### Names of values -/

/-- Every value stands under its own name. -/
def KeyedBy (m : OrderedMap α) (name : α → String) : Prop :=
  ∀ e ∈ m.entries, e.1 = name e.2

instance (m : OrderedMap α) (name : α → String) : Decidable (m.KeyedBy name) :=
  inferInstanceAs (Decidable (∀ e ∈ m.entries, e.1 = name e.2))

theorem Gathers.keyedBy {m : OrderedMap α} {entries : List (String × α)}
    (h : m.Gathers entries) {name : α → String} (keyed : ∀ e ∈ entries, e.1 = name e.2) :
    m.KeyedBy name :=
  fun e mem => keyed e (h.mem_of_mem mem)

end OrderedMap

end GraphQLStatics
