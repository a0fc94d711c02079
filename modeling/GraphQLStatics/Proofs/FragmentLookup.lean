import GraphQLStatics.Proofs.MapEntries
import GraphQLStatics.Validation.Workspace

/-!
# Looking fragments up

A workspace that is bound to a document finds fragments through an index of
positions among the document's definitions.  This file says what that index
amounts to: of the fragments with a name, the last one counts.

## Main Definitions

* `Document.lastFragment?`: the last fragment with a name
* `Workspace.BoundTo`: a workspace holds the index of a document

## Main Statements

* `Workspace.BoundTo.fragment?_eq`: a bound workspace finds last fragments
* `Document.lastFragment?_eq_some_iff`: no later definition is a fragment with
  that name
* `Document.lastFragment?_eq_some_iff_of_nodup`: without repeated names the
  last fragment with a name is the only one
* `fragment?_bindTo_is_last`: binding a workspace, whatever it was bound to before
-/

namespace GraphQLStatics

/-! ### The last fragment with a name -/

theorem Definition.fragment?_eq_some_iff {definition : Definition} {frag : Fragment} :
    definition.fragment? = some frag ↔ definition = .fragment frag := by
  cases definition <;> simp [fragment?]

namespace Document

/-- The last fragment with a name, which is the one that spreads of the name
stand for. -/
def lastFragment? (doc : Document) (name : String) : Option Fragment :=
  (doc.fragments.filter (·.name = name)).getLast?

theorem mem_fragments {doc : Document} {frag : Fragment} :
    frag ∈ doc.fragments ↔ .fragment frag ∈ doc.definitions := by
  rw [fragments, List.mem_filterMap]
  constructor
  · rintro ⟨definition, mem, isFragment⟩
    rwa [← Definition.fragment?_eq_some_iff.mp isFragment]
  · intro mem
    exact ⟨.fragment frag, mem, rfl⟩

theorem mem_of_lastFragment? {doc : Document} {name : String} {frag : Fragment}
    (h : doc.lastFragment? name = some frag) : frag ∈ doc.fragments ∧ frag.name = name := by
  have mem := List.mem_of_getLast? h
  simpa using mem

/-- A name has a last fragment if it has any. -/
theorem isSome_lastFragment?_of_mem {doc : Document} {frag : Fragment}
    (mem : frag ∈ doc.fragments) : (doc.lastFragment? frag.name).isSome := by
  rw [lastFragment?, List.getLast?_isSome]
  intro empty
  have : frag ∈ doc.fragments.filter (·.name = frag.name) := by simp [mem]
  rw [empty] at this
  exact List.not_mem_nil this

/-- A name has no last fragment if no fragment has the name. -/
theorem lastFragment?_eq_none_iff {doc : Document} {name : String} :
    doc.lastFragment? name = none ↔ ∀ frag ∈ doc.fragments, frag.name ≠ name := by
  simp [lastFragment?]

/-- The last fragment with a name is a definition with no other such fragment
after it. -/
theorem lastFragment?_eq_some_iff {doc : Document} {name : String} {frag : Fragment} :
    doc.lastFragment? name = some frag ↔
      ∃ before after, doc.definitions = before ++ .fragment frag :: after ∧ frag.name = name ∧
        ∀ other, Definition.fragment other ∈ after → other.name ≠ name := by
  -- From the end of the document on, the fragment is the first one with the name.
  have fromTheEnd : doc.lastFragment? name = doc.definitions.reverse.findSome? fun definition =>
      definition.fragment?.filter (·.name = name) := by
    rw [lastFragment?, fragments, List.filter_filterMap, List.getLast?_filterMap]
  rw [fromTheEnd, List.findSome?_eq_some_iff]
  constructor
  · rintro ⟨after, definition, before, split, found, others⟩
    obtain ⟨isFragment, named⟩ := Option.filter_eq_some_iff.mp found
    cases Definition.fragment?_eq_some_iff.mp isFragment
    refine ⟨before.reverse, after.reverse, ?_, by simpa using named, ?_⟩
    · rw [← List.reverse_reverse doc.definitions, split]
      simp
    · intro other mem same
      have skipped := others (.fragment other) (List.mem_reverse.mp mem)
      simp [Definition.fragment?, same] at skipped
  · rintro ⟨before, after, split, named, others⟩
    refine ⟨after.reverse, .fragment frag, before.reverse, by simp [split], ?_, ?_⟩
    · simp [Definition.fragment?, named]
    · intro definition mem
      rw [Option.filter_eq_none_iff]
      intro other isFragment
      cases Definition.fragment?_eq_some_iff.mp isFragment
      simpa using others other (List.mem_reverse.mp mem)

/-- Where no name is repeated, the last fragment with a name is the only one. -/
theorem lastFragment?_eq_some_iff_of_nodup {doc : Document}
    (nodup : (doc.fragments.map (·.name)).Nodup) {name : String} {frag : Fragment} :
    doc.lastFragment? name = some frag ↔ frag ∈ doc.fragments ∧ frag.name = name := by
  refine ⟨mem_of_lastFragment?, ?_⟩
  rintro ⟨mem, rfl⟩
  obtain ⟨last, found⟩ := Option.isSome_iff_exists.mp (isSome_lastFragment?_of_mem mem)
  obtain ⟨lastMem, sameName⟩ := mem_of_lastFragment? found
  rw [found, List.inj_on_of_nodup_map nodup lastMem mem sameName]

end Document

/-! ### Bound workspaces -/

namespace Workspace

/-- The workspace holds the index of the document's fragments. -/
def BoundTo (w : Workspace) (doc : Document) : Prop :=
  w.fragmentIndex = .ofList (indexEntries doc)

theorem boundTo_bindTo (w : Workspace) (doc : Document) : (w.bindTo doc).BoundTo doc :=
  rfl

/-- Every entry of the index leads to the fragment that it was made from. -/
theorem indexEntries_resolved (doc : Document) :
    (indexEntries doc).map (fun e => (e.1, (doc.definitions[e.2]?).bind Definition.fragment?)) =
      doc.fragments.map (fun frag => (frag.name, some frag)) := by
  have unindexed : doc.fragments =
      doc.definitions.zipIdx.filterMap (fun e => e.1.fragment?) := by
    conv_lhs => rw [Document.fragments, ← List.zipIdx_map_fst 0 doc.definitions]
    rw [List.filterMap_map]
    rfl
  rw [unindexed, indexEntries, List.map_filterMap, List.map_filterMap]
  refine List.filterMap_congr ?_
  rintro ⟨definition, i⟩ mem
  have at_i : doc.definitions[i]? = some definition := by
    simpa using List.mem_zipIdx_iff_getElem?.mp mem
  cases h : definition.fragment? with
  | none => simp [h]
  | some frag => simp [h, at_i]

/-- A bound workspace finds the last fragment with a name. -/
theorem BoundTo.fragment?_eq {w : Workspace} {doc : Document} (bound : w.BoundTo doc)
    (name : String) : w.fragment? doc name = doc.lastFragment? name := by
  have resolved := congrArg
    (fun entries => ((entries.filter (·.1 = name)).getLast?).bind Prod.snd)
    (indexEntries_resolved doc)
  simp only [List.filter_map, List.getLast?_map] at resolved
  rw [fragment?, bound, OrderedMap.find?_ofList, Document.lastFragment?]
  simpa [Option.bind_map, Option.bind_assoc, Function.comp_def] using resolved

end Workspace

/-- **A binding finds the last fragments.**  Whatever a workspace holds, violations,
scratch and the index of another document included, once it is bound to a document
it finds, under every name, the last definition among the document's that is a
fragment with that name, and nothing if there is none.  Only the index changes. -/
theorem fragment?_bindTo_is_last (w : Workspace) (doc : Document) :
    (∀ name frag, (w.bindTo doc).fragment? doc name = some frag ↔
      ∃ before after, doc.definitions = before ++ .fragment frag :: after ∧ frag.name = name ∧
        ∀ other, Definition.fragment other ∈ after → other.name ≠ name) ∧
    (∀ name, (w.bindTo doc).fragment? doc name = none ↔
      ∀ frag, Definition.fragment frag ∈ doc.definitions → frag.name ≠ name) ∧
    (w.bindTo doc).violations = w.violations ∧
    (w.bindTo doc).generation = w.generation ∧
    (w.bindTo doc).names = w.names ∧
    (w.bindTo doc).spreadPath = w.spreadPath ∧
    (w.bindTo doc).marks = w.marks ∧
    (w.bindTo doc).visited = w.visited := by
  have found := (w.boundTo_bindTo doc).fragment?_eq
  refine ⟨fun name frag => ?_, fun name => ?_, rfl, rfl, rfl, rfl, rfl, rfl⟩
  · rw [found]
    exact Document.lastFragment?_eq_some_iff
  · rw [found, Document.lastFragment?_eq_none_iff]
    simp only [Document.mem_fragments]

end GraphQLStatics
