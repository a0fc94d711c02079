import GraphQLStatics.Proofs.CycleReports
import GraphQLStatics.Proofs.Findings

/-!
# When the fragments of a document are in order

The rule about fragments goes through the document several times.  It finds
nothing if and only if five conditions hold, and none of them mentions an order
of the document's definitions.

## Main Statements

* `withEarlier_nameFindings_eq_nil_iff`: names are unique
* `Document.mem_usedNames`: the names that are marked as used
* `fragmentFindings_eq_nil_iff`: the rule as a whole
-/

namespace GraphQLStatics

/-! ### Names -/

/-- No name is reported if the names differ from each other and from the
earlier ones. -/
theorem withEarlier_nameFindings_eq_nil_iff (doc : Document) (earlier frags : List Fragment) :
    withEarlier (nameFindings doc) earlier frags = [] ↔
      (frags.map (·.name)).Nodup ∧ ∀ frag ∈ frags, ∀ other ∈ earlier, other.name ≠ frag.name := by
  induction frags generalizing earlier with
  | nil => simp [withEarlier]
  | cons frag rest ih =>
      have head : nameFindings doc earlier frag = [] ↔
          ∀ other ∈ earlier, other.name ≠ frag.name := by
        simp [nameFindings]
      rw [withEarlier, List.append_eq_nil_iff, ih, head, List.map_cons, List.nodup_cons]
      simp only [List.mem_append, List.mem_singleton, List.mem_map, List.forall_mem_cons]
      constructor
      · rintro ⟨isNew, nodup, others⟩
        refine ⟨⟨?_, nodup⟩, isNew, ?_⟩
        · rintro ⟨other, mem, same⟩
          exact others other mem frag (Or.inr rfl) same.symm
        · intro other mem e inEarlier
          exact others other mem e (Or.inl inEarlier)
      · rintro ⟨⟨notAgain, nodup⟩, isNew, others⟩
        refine ⟨isNew, nodup, ?_⟩
        rintro other mem e (inEarlier | rfl)
        · exact others other mem e inEarlier
        · intro same
          exact notAgain ⟨other, mem, same.symm⟩

/-! ### Usage -/

/-- Marking from one operation after another marks what any of them reaches. -/
theorem mem_visited_foldl_reachable {doc : Document} (ops : List Operation) {w : Workspace}
    (bound : w.BoundTo doc)
    (closed : doc.ClosedUpTo [] w.visited) (name : String) :
    name ∈ (ops.foldl (fun w op => (reachable doc op.selections w).2) w).visited ↔
      name ∈ w.visited ∨ ∃ op ∈ ops, doc.Reaches op.selections name := by
  induction ops generalizing w with
  | nil => simp
  | cons op rest ih =>
      have marks := marks_reachable op.selections bound closed
      have bound' := (Workspace.Gains.reachable doc op.selections w).boundTo bound
      rw [List.foldl_cons, ih bound' (marks.closed closed), marks.mem_after, or_assoc,
        List.exists_mem_cons_iff, Document.Reaches]

/-- A name is used if some operation reaches it. -/
theorem Document.mem_usedNames {doc : Document} {name : String} :
    name ∈ doc.usedNames ↔ ∃ op ∈ doc.operations, doc.Reaches op.selections name := by
  have marked := mem_visited_foldl_reachable doc.operations
    (w := (Workspace.fresh.bindTo doc).clearVisited) (Workspace.boundTo_bindTo _ doc)
    (Document.ClosedUpTo.nil doc []) name
  have noMarks : (Workspace.fresh.bindTo doc).clearVisited.visited = [] := rfl
  rw [noMarks] at marked
  simpa [Document.usedNames, markUsed] using marked

/-! ### The rule -/

/-- **When the fragments are in order.**  Names are unique, type conditions name
composite types, spreads and inline fragments can apply where they stand, every
fragment is reached from some operation, and spreads form no cycle. -/
theorem fragmentFindings_eq_nil_iff (schema : Schema) (doc : Document) :
    fragmentFindings schema doc = [] ↔
      (doc.fragments.map (·.name)).Nodup ∧
      (∀ frag ∈ doc.fragments, conditionFindings schema doc frag.position frag.condition = []) ∧
      (∀ visit ∈ doc.walk schema, visitFragmentFindings schema doc visit = []) ∧
      (∀ frag ∈ doc.fragments, ∃ op ∈ doc.operations, doc.Reaches op.selections frag.name) ∧
      doc.Acyclic := by
  have names : withEarlier (nameFindings doc) [] doc.fragments = [] ↔
      (doc.fragments.map (·.name)).Nodup := by
    simp [withEarlier_nameFindings_eq_nil_iff]
  have used : ∀ frag, unusedFindings doc frag = [] ↔
      ∃ op ∈ doc.operations, doc.Reaches op.selections frag.name := by
    intro frag
    rw [← Document.mem_usedNames]
    simp [unusedFindings]
  have cycles : cycleFindings doc = [] ↔ doc.Acyclic :=
    checkCycles_violations_eq_nil_iff doc
  simp only [fragmentFindings, List.append_eq_nil_iff, List.flatMap_eq_nil_iff, names, used,
    cycles, and_assoc]

end GraphQLStatics
