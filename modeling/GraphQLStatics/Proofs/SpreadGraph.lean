import Mathlib.Data.List.Nodup
import Mathlib.Logic.Relation
import GraphQLStatics.Proofs.FragmentLookup
import GraphQLStatics.Validation.Traversal

/-!
# The graph of spreads

Fragments lead to the fragments that they spread.  Since a spread stands for
the last fragment with its name, the graph has names as its nodes, and the
edges out of a name are the spreads within its last definition.

The program explores this graph breadth first, with a queue of spreads, a list
of names already marked and a number of steps that it may take.  `Marks` says
what such an exploration is for: the names marked afterwards are those marked
before and those that can be reached from the queue.  That holds whenever the
marked names lead to marked or queued names only, and the steps suffice for
the queue and for the spreads of the fragments that are not marked yet.

## Main Definitions

* `Document.Leads`: a fragment spreads another
* `Document.Reaches`: a name can be reached from a selection set
* `Document.ReachesFragment`: a definition can be reached from a selection set
* `Document.ClosedUpTo`: marked names lead to marked or queued names
* `Document.Marks`: what an exploration of the graph achieves
* `openCost`: how much is left to do for the fragments that are still open
* `Explores`: a queue is worked off

## Main Statements

* `explores_reachable`: `reachable` works off its queue
* `marks_reachable`: `reachable` marks exactly the names that can be reached
* `mem_reachable_clearVisited`: the definitions that `reachable` gives
-/

namespace GraphQLStatics

/-! ### Spreads as a graph -/

/-- The names of the fragments that are spread within a selection set. -/
def SelectionSet.spreadNames (set : SelectionSet) : List String :=
  set.spreads.map (·.fragment)

namespace SelectionSet

@[simp] theorem spreadNames_nil : nil.spreadNames = [] :=
  rfl

@[simp] theorem spreadNames_field (f : FieldUse) (sub rest : SelectionSet) :
    (field f sub rest).spreadNames = sub.spreadNames ++ rest.spreadNames :=
  List.map_append

@[simp] theorem spreadNames_spread (f : SpreadUse) (rest : SelectionSet) :
    (spread f rest).spreadNames = f.fragment :: rest.spreadNames :=
  rfl

@[simp] theorem spreadNames_inline (f : InlineUse) (sub rest : SelectionSet) :
    (inline f sub rest).spreadNames = sub.spreadNames ++ rest.spreadNames :=
  List.map_append

end SelectionSet

namespace Document

/-- The last definition of the fragment `a` spreads `b`. -/
def Leads (doc : Document) (a b : String) : Prop :=
  ∃ frag, doc.lastFragment? a = some frag ∧ b ∈ frag.selections.spreadNames

/-- The fragment `name` is spread within a selection set, or within the last
definition of a fragment that can be reached from it. -/
def Reaches (doc : Document) (set : SelectionSet) (name : String) : Prop :=
  ∃ first ∈ set.spreadNames, Relation.ReflTransGen doc.Leads first name

/-- The definition `frag` is what spreads of a reached name stand for. -/
def ReachesFragment (doc : Document) (set : SelectionSet) (frag : Fragment) : Prop :=
  doc.Reaches set frag.name ∧ doc.lastFragment? frag.name = some frag

/-- A name without definition leads nowhere. -/
theorem not_leads_of_undefined {doc : Document} {a b : String}
    (undefined : doc.lastFragment? a = none) : ¬ doc.Leads a b := by
  rintro ⟨frag, found, -⟩
  rw [undefined] at found
  cases found

theorem leads_iff_of_defined {doc : Document} {a b : String} {frag : Fragment}
    (found : doc.lastFragment? a = some frag) :
    doc.Leads a b ↔ b ∈ frag.selections.spreadNames := by
  constructor
  · rintro ⟨other, foundOther, mem⟩
    rw [found] at foundOther
    cases foundOther
    exact mem
  · intro mem
    exact ⟨frag, found, mem⟩

/-- What can be reached from a name is the name and what can be reached from
its definition. -/
theorem leads_star_iff_of_defined {doc : Document} {a b : String} {frag : Fragment}
    (found : doc.lastFragment? a = some frag) :
    Relation.ReflTransGen doc.Leads a b ↔ b = a ∨ doc.Reaches frag.selections b := by
  rw [Relation.ReflTransGen.cases_head_iff]
  simp only [Reaches, leads_iff_of_defined found, eq_comm]

/-- From a name without definition nothing else can be reached. -/
theorem leads_star_iff_of_undefined {doc : Document} {a b : String}
    (undefined : doc.lastFragment? a = none) :
    Relation.ReflTransGen doc.Leads a b ↔ b = a := by
  rw [Relation.ReflTransGen.cases_head_iff]
  simp only [not_leads_of_undefined undefined, false_and, exists_false, or_false, eq_comm]

theorem Reaches.tail {doc : Document} {set : SelectionSet} {a b : String}
    (reaches : doc.Reaches set a) (edge : doc.Leads a b) : doc.Reaches set b := by
  obtain ⟨first, mem, path⟩ := reaches
  exact ⟨first, mem, path.tail edge⟩

/-- What can be reached from a spread and the selections after it. -/
theorem reachesFragment_spread {doc : Document} {f : SpreadUse} {target frag : Fragment}
    (found : doc.lastFragment? f.fragment = some target) (rest : SelectionSet) :
    doc.ReachesFragment (.spread f rest) frag ↔
      frag = target ∨ doc.ReachesFragment target.selections frag ∨
        doc.ReachesFragment rest frag := by
  have targetName := (mem_of_lastFragment? found).2
  have named : frag.name = f.fragment ∧ doc.lastFragment? frag.name = some frag ↔
      frag = target := by
    constructor
    · rintro ⟨sameName, isLast⟩
      rw [sameName, found] at isLast
      exact (Option.some.inj isLast).symm
    · rintro rfl
      exact ⟨targetName, targetName ▸ found⟩
  simp only [ReachesFragment, Reaches, SelectionSet.spreadNames_spread,
    List.exists_mem_cons_iff, leads_star_iff_of_defined found, or_and_right, named, or_assoc]

theorem reachesFragment_field {doc : Document} {frag : Fragment} (f : FieldUse)
    (sub rest : SelectionSet) :
    doc.ReachesFragment (.field f sub rest) frag ↔
      doc.ReachesFragment sub frag ∨ doc.ReachesFragment rest frag := by
  simp only [ReachesFragment, Reaches, SelectionSet.spreadNames_field, List.mem_append,
    or_and_right, exists_or]

theorem reachesFragment_inline {doc : Document} {frag : Fragment} (f : InlineUse)
    (sub rest : SelectionSet) :
    doc.ReachesFragment (.inline f sub rest) frag ↔
      doc.ReachesFragment sub frag ∨ doc.ReachesFragment rest frag := by
  simp only [ReachesFragment, Reaches, SelectionSet.spreadNames_inline, List.mem_append,
    or_and_right, exists_or]

/-- The names in `marked` lead to names that are marked or queued. -/
def ClosedUpTo (doc : Document) (queue marked : List String) : Prop :=
  ∀ a ∈ marked, ∀ b, doc.Leads a b → b ∈ marked ∨ b ∈ queue

namespace ClosedUpTo

variable {doc : Document} {queue marked : List String} {name : String}

theorem nil (doc : Document) (queue : List String) : doc.ClosedUpTo queue [] := by
  intro a mem
  cases mem

theorem mono {queue' : List String} (closed : doc.ClosedUpTo queue marked)
    (sub : queue ⊆ queue') : doc.ClosedUpTo queue' marked := by
  intro a mem b edge
  exact (closed a mem b edge).imp id fun inQueue => sub inQueue

/-- A marked name can leave the queue. -/
theorem skip (closed : doc.ClosedUpTo (name :: queue) marked) (mem : name ∈ marked) :
    doc.ClosedUpTo queue marked := by
  intro a inMarked b edge
  rcases closed a inMarked b edge with isMarked | inQueue
  · exact Or.inl isMarked
  · rcases List.mem_cons.mp inQueue with rfl | inQueue
    · exact Or.inl mem
    · exact Or.inr inQueue

/-- A queued name can be marked if what it leads to joins the queue. -/
theorem mark {added : List String} (closed : doc.ClosedUpTo (name :: queue) marked)
    (leads : ∀ b, doc.Leads name b → b ∈ added) :
    doc.ClosedUpTo (queue ++ added) (marked ++ [name]) := by
  intro a inMarked b edge
  simp only [List.mem_append, List.mem_singleton] at inMarked ⊢
  rcases inMarked with old | rfl
  · rcases closed a old b edge with isMarked | inQueue
    · exact Or.inl (Or.inl isMarked)
    · rcases List.mem_cons.mp inQueue with rfl | inQueue
      · exact Or.inl (Or.inr rfl)
      · exact Or.inr (Or.inl inQueue)
  · exact Or.inr (Or.inr (leads b edge))

/-- A path from a marked name leads to a marked name or passes a queued one. -/
theorem mem_or_queued (closed : doc.ClosedUpTo queue marked) {a b : String}
    (path : Relation.ReflTransGen doc.Leads a b) (mem : a ∈ marked) :
    b ∈ marked ∨ ∃ first ∈ queue, Relation.ReflTransGen doc.Leads first b := by
  induction path with
  | refl => exact Or.inl mem
  | tail _ edge ih =>
      rcases ih with inMarked | ⟨first, inQueue, path⟩
      · rcases closed _ inMarked _ edge with h | h
        · exact Or.inl h
        · exact Or.inr ⟨_, h, .refl⟩
      · exact Or.inr ⟨first, inQueue, path.tail edge⟩

end ClosedUpTo

end Document

/-! ### The work that is left -/

/-- The total cost of the fragments whose names are still open. -/
def openCost (cost : Fragment → Nat) (isOpen : String → Bool) : List Fragment → Nat
  | [] => 0
  | frag :: rest => (if isOpen frag.name then cost frag else 0) + openCost cost isOpen rest

theorem openCost_mono (cost : Fragment → Nat) {before after : String → Bool}
    (shrinks : ∀ name, after name = true → before name = true) (frags : List Fragment) :
    openCost cost after frags ≤ openCost cost before frags := by
  induction frags with
  | nil => exact Nat.le_refl _
  | cons frag rest ih =>
      have head : (if after frag.name then cost frag else 0) ≤
          (if before frag.name then cost frag else 0) := by
        cases h : after frag.name with
        | false => simp
        | true => simp [shrinks _ h]
      simp only [openCost]
      omega

/-- Closing the name of a fragment pays for the fragment. -/
theorem openCost_close (cost : Fragment → Nat) {before after : String → Bool}
    (shrinks : ∀ name, after name = true → before name = true) {frag : Fragment}
    (wasOpen : before frag.name = true) (closed : after frag.name = false)
    {frags : List Fragment} (mem : frag ∈ frags) :
    openCost cost after frags + cost frag ≤ openCost cost before frags := by
  induction frags with
  | nil => cases mem
  | cons other rest ih =>
      simp only [openCost]
      rcases List.mem_cons.mp mem with rfl | later
      · have := openCost_mono cost shrinks rest
        simp only [wasOpen, closed]
        simp only [if_true, Bool.false_eq_true, if_false]
        omega
      · have tail := ih later
        have head : (if after other.name then cost other else 0) ≤
            (if before other.name then cost other else 0) := by
          cases h : after other.name with
          | false => simp
          | true => simp [shrinks _ h]
        omega

/-- The spreads within the fragments that are not marked. -/
def Document.unmarkedSpreads (doc : Document) (marked : List String) : Nat :=
  openCost (fun frag => frag.selections.spreads.length) (fun name => !marked.contains name)
    doc.fragments

theorem Document.unmarkedSpreads_nil (doc : Document) :
    doc.unmarkedSpreads [] = doc.spreadCount := by
  unfold Document.unmarkedSpreads Document.spreadCount
  induction doc.fragments with
  | nil => rfl
  | cons frag rest ih => simpa [openCost] using ih

theorem Document.unmarkedSpreads_le (doc : Document) (marked : List String) :
    doc.unmarkedSpreads marked ≤ doc.spreadCount := by
  rw [← doc.unmarkedSpreads_nil]
  exact openCost_mono _ (by simp) _

/-- Marking one more name leaves no more to do than before. -/
theorem Document.unmarkedSpreads_append_le (doc : Document) (marked : List String)
    (name : String) : doc.unmarkedSpreads (marked ++ [name]) ≤ doc.unmarkedSpreads marked := by
  refine openCost_mono _ ?_ _
  intro other
  simp +contextual

/-- Marking the name of a fragment pays for the fragment's spreads. -/
theorem Document.unmarkedSpreads_append {doc : Document} {marked : List String}
    {frag : Fragment} (mem : frag ∈ doc.fragments) (new : frag.name ∉ marked) :
    doc.unmarkedSpreads (marked ++ [frag.name]) + frag.selections.spreads.length ≤
      doc.unmarkedSpreads marked := by
  refine openCost_close _ ?_ ?_ ?_ mem
  · intro other
    simp +contextual
  · simpa using new
  · simp

/-! ### What marking achieves -/

namespace Document

/-- The outcome of an exploration from the names in `queue`, where the names in
`before` were marked already: the names marked `after` it, and the definitions
`reached` on the way. -/
structure Marks (doc : Document) (queue before : List String) (reached : List Fragment)
    (after : List String) : Prop where
  /-- What was marked or can be reached is marked. -/
  mem_after : ∀ name, name ∈ after ↔
    name ∈ before ∨ ∃ first ∈ queue, Relation.ReflTransGen doc.Leads first name
  /-- Every newly marked name contributes its definition, if it has one. -/
  mem_reached : ∀ frag, frag ∈ reached ↔
    frag.name ∈ after ∧ frag.name ∉ before ∧ doc.lastFragment? frag.name = some frag
  /-- No definition is reached twice. -/
  nodup_reached : (reached.map (·.name)).Nodup

namespace Marks

variable {doc : Document} {queue before after : List String} {reached : List Fragment}
  {name : String}

/-- Nothing is queued. -/
theorem nil (doc : Document) (before : List String) : doc.Marks [] before [] before where
  mem_after := by simp
  mem_reached := by
    intro frag
    simp only [List.not_mem_nil, false_iff]
    rintro ⟨mem, notMem, -⟩
    exact notMem mem
  nodup_reached := List.nodup_nil

/-- A name that is marked already adds nothing, because what can be reached
from it is marked or can be reached from the rest of the queue. -/
theorem skip (closed : doc.ClosedUpTo queue before) (marked : name ∈ before)
    (h : doc.Marks queue before reached after) :
    doc.Marks (name :: queue) before reached after where
  mem_after := by
    intro other
    rw [h.mem_after]
    constructor
    · rintro (mem | ⟨first, inQueue, path⟩)
      · exact Or.inl mem
      · exact Or.inr ⟨first, List.mem_cons_of_mem _ inQueue, path⟩
    · rintro (mem | ⟨first, inQueue, path⟩)
      · exact Or.inl mem
      · rcases List.mem_cons.mp inQueue with rfl | inRest
        · exact closed.mem_or_queued path marked
        · exact Or.inr ⟨first, inRest, path⟩
  mem_reached := h.mem_reached
  nodup_reached := h.nodup_reached

/-- A name without definition is marked and leads nowhere. -/
theorem undefined (undef : doc.lastFragment? name = none)
    (h : doc.Marks queue (before ++ [name]) reached after) :
    doc.Marks (name :: queue) before reached after where
  mem_after := by
    intro other
    rw [h.mem_after]
    simp only [List.mem_append, List.mem_singleton, List.exists_mem_cons_iff,
      leads_star_iff_of_undefined undef]
    tauto
  mem_reached := by
    intro frag
    rw [h.mem_reached]
    have notName : doc.lastFragment? frag.name = some frag → frag.name ≠ name := by
      intro found same
      rw [same, undef] at found
      cases found
    simp only [List.mem_append, List.mem_singleton]
    tauto
  nodup_reached := h.nodup_reached

/-- A name with a definition is marked, and the spreads of the definition join
the queue. -/
theorem expand {frag : Fragment} (fresh : name ∉ before)
    (found : doc.lastFragment? name = some frag)
    (h : doc.Marks (queue ++ frag.selections.spreadNames) (before ++ [name]) reached after) :
    doc.Marks (name :: queue) before (frag :: reached) after := by
  have fragName : frag.name = name := (mem_of_lastFragment? found).2
  have nameAfter : name ∈ after := (h.mem_after name).mpr (Or.inl (by simp))
  refine ⟨?_, ?_, ?_⟩
  · intro other
    rw [h.mem_after]
    simp only [List.mem_append, List.mem_singleton, List.exists_mem_cons_iff,
      leads_star_iff_of_defined found, Reaches, or_and_right, exists_or]
    simp only [or_assoc, or_comm, or_left_comm]
  · intro other
    rw [List.mem_cons, h.mem_reached]
    simp only [List.mem_append, List.mem_singleton, not_or]
    constructor
    · rintro (rfl | ⟨mem, ⟨notMem, -⟩, isLast⟩)
      · exact ⟨fragName ▸ nameAfter, fragName ▸ fresh, fragName.symm ▸ found⟩
      · exact ⟨mem, notMem, isLast⟩
    · rintro ⟨mem, notMem, isLast⟩
      by_cases same : other.name = name
      · rw [same, found] at isLast
        exact Or.inl (Option.some.inj isLast).symm
      · exact Or.inr ⟨mem, ⟨notMem, same⟩, isLast⟩
  · rw [List.map_cons, List.nodup_cons]
    refine ⟨?_, h.nodup_reached⟩
    intro again
    obtain ⟨other, mem, sameName⟩ := List.mem_map.mp again
    have new := ((h.mem_reached other).mp mem).2.1
    rw [sameName, fragName] at new
    simp at new

end Marks

end Document

/-! ### Breadth-first marking -/

namespace Workspace

theorem BoundTo.addVisited {w : Workspace} {doc : Document} (bound : w.BoundTo doc)
    (name : String) : (w.addVisited name).BoundTo doc := by
  unfold Workspace.addVisited
  split
  · exact bound
  · exact bound

theorem isVisited_iff {w : Workspace} {name : String} :
    w.isVisited name = true ↔ name ∈ w.visited := by
  simp [Workspace.isVisited]

theorem isVisited_eq_false_iff {w : Workspace} {name : String} :
    w.isVisited name = false ↔ name ∉ w.visited := by
  simp [Workspace.isVisited]

theorem addVisited_of_new {w : Workspace} {name : String} (new : name ∉ w.visited) :
    w.addVisited name = { w with visited := w.visited ++ [name] } := by
  simp [Workspace.addVisited, isVisited_eq_false_iff.mpr new]

end Workspace

/-- Working off a queue of spreads until it is empty, with the workspace before
and after it and the definitions reached on the way.  No number of steps is
given. -/
inductive Explores (doc : Document) :
    List SpreadUse → Workspace → List Fragment → Workspace → Prop
  | stop (w : Workspace) : Explores doc [] w [] w
  /-- The fragment is marked already. -/
  | skip {spread : SpreadUse} {queue : List SpreadUse} {w w' : Workspace}
      {reached : List Fragment} (marked : spread.fragment ∈ w.visited)
      (rest : Explores doc queue w reached w') : Explores doc (spread :: queue) w reached w'
  /-- The fragment is marked, and has no definition. -/
  | undefined {spread : SpreadUse} {queue : List SpreadUse} {w w' : Workspace}
      {reached : List Fragment} (new : spread.fragment ∉ w.visited)
      (undef : doc.lastFragment? spread.fragment = none)
      (rest : Explores doc queue { w with visited := w.visited ++ [spread.fragment] } reached w') :
      Explores doc (spread :: queue) w reached w'
  /-- The fragment is marked, and the spreads of its definition are queued. -/
  | expand {spread : SpreadUse} {queue : List SpreadUse} {w w' : Workspace}
      {reached : List Fragment} {frag : Fragment} (new : spread.fragment ∉ w.visited)
      (found : doc.lastFragment? spread.fragment = some frag)
      (rest : Explores doc (queue ++ frag.selections.spreads)
        { w with visited := w.visited ++ [spread.fragment] } reached w') :
      Explores doc (spread :: queue) w (frag :: reached) w'

/-- With enough steps the queue is worked off. -/
theorem explores_reachableWithin (doc : Document) (n : Nat) (queue : List SpreadUse)
    (w : Workspace) (bound : w.BoundTo doc)
    (enough : queue.length + doc.unmarkedSpreads w.visited ≤ n) :
    Explores doc queue w (reachableWithin doc n queue w).1 (reachableWithin doc n queue w).2 := by
  -- The steps pay for the queue and for the spreads of unmarked fragments.
  induction n generalizing queue w with
  | zero =>
      have empty : queue = [] := List.eq_nil_of_length_eq_zero (by omega)
      subst empty
      exact .stop w
  | succ n ih =>
      cases queue with
      | nil => exact .stop w
      | cons spread queue =>
          simp only [List.length_cons] at enough
          rw [reachableWithin]
          cases seen : w.isVisited spread.fragment with
          | true =>
              simp only [if_true]
              exact .skip (Workspace.isVisited_iff.mp seen) (ih queue w bound (by omega))
          | false =>
              have new : spread.fragment ∉ w.visited := Workspace.isVisited_eq_false_iff.mp seen
              have bound' := bound.addVisited spread.fragment
              simp only [Bool.false_eq_true, if_false]
              rw [Workspace.addVisited_of_new new] at bound' ⊢
              rw [bound'.fragment?_eq]
              cases found : doc.lastFragment? spread.fragment with
              | none =>
                  refine .undefined new found (ih queue _ bound' ?_)
                  have := doc.unmarkedSpreads_append_le w.visited spread.fragment
                  dsimp only
                  omega
              | some frag =>
                  obtain ⟨mem, sameName⟩ := Document.mem_of_lastFragment? found
                  refine .expand new found (ih (queue ++ frag.selections.spreads) _ bound' ?_)
                  rw [← sameName] at new
                  have paid := Document.unmarkedSpreads_append mem new
                  rw [sameName] at paid
                  rw [List.length_append]
                  dsimp only
                  omega

/-- The number of steps that `reachable` takes is enough. -/
theorem explores_reachable {doc : Document} (set : SelectionSet) {w : Workspace}
    (bound : w.BoundTo doc) :
    Explores doc set.spreads w (reachable doc set w).1 (reachable doc set w).2 := by
  refine explores_reachableWithin doc _ set.spreads w bound ?_
  have := doc.unmarkedSpreads_le w.visited
  omega

/-- Working off a queue does what it is for. -/
theorem Explores.marks {doc : Document} {queue : List SpreadUse} {w w' : Workspace}
    {reached : List Fragment} (explores : Explores doc queue w reached w')
    (closed : doc.ClosedUpTo (queue.map (·.fragment)) w.visited) :
    doc.Marks (queue.map (·.fragment)) w.visited reached w'.visited := by
  -- The marked names stay closed up to the queue.
  induction explores with
  | stop w => exact .nil doc w.visited
  | skip marked _ ih =>
      have closed' := closed.skip marked
      exact (ih closed').skip closed' marked
  | undefined new undef _ ih =>
      have closed' := closed.mark fun b edge => show b ∈ [] from
        absurd edge (Document.not_leads_of_undefined undef)
      rw [List.append_nil] at closed'
      exact .undefined undef (ih closed')
  | expand new found _ ih =>
      have closed' := closed.mark fun _ => (Document.leads_iff_of_defined found).mp
      rw [SelectionSet.spreadNames, ← List.map_append] at closed'
      have marks := ih closed'
      rw [List.map_append] at marks
      exact .expand new found marks

/-- Marking changes nothing but the marks. -/
theorem reachableWithin_frame (doc : Document) (n : Nat) (queue : List SpreadUse)
    (w : Workspace) :
    ∃ visited, (reachableWithin doc n queue w).2 = { w with visited } := by
  induction n generalizing queue w with
  | zero => exact ⟨w.visited, rfl⟩
  | succ n ih =>
      cases queue with
      | nil => exact ⟨w.visited, rfl⟩
      | cons spread queue =>
          rw [reachableWithin]
          cases seen : w.isVisited spread.fragment with
          | true => exact ih queue w
          | false =>
              have frame := Workspace.addVisited_of_new
                (Workspace.isVisited_eq_false_iff.mp seen)
              simp only [Bool.false_eq_true, if_false, frame]
              split
              · exact ih queue _
              · exact ih _ _

/-- Marking reads nothing but the index and the marks. -/
theorem reachableWithin_congr (doc : Document) (n : Nat) (queue : List SpreadUse)
    {w w' : Workspace} (index : w.fragmentIndex = w'.fragmentIndex)
    (visited : w.visited = w'.visited) :
    (reachableWithin doc n queue w).1 = (reachableWithin doc n queue w').1 ∧
      (reachableWithin doc n queue w).2.visited = (reachableWithin doc n queue w').2.visited := by
  induction n generalizing queue w w' with
  | zero => exact ⟨rfl, visited⟩
  | succ n ih =>
      cases queue with
      | nil => exact ⟨rfl, visited⟩
      | cons spread queue =>
          have sameSeen : w.isVisited spread.fragment = w'.isVisited spread.fragment := by
            rw [Workspace.isVisited, visited, Workspace.isVisited]
          rw [reachableWithin, reachableWithin, ← sameSeen]
          cases seen : w.isVisited spread.fragment with
          | true => exact ih queue index visited
          | false =>
              have index' : (w.addVisited spread.fragment).fragmentIndex =
                  (w'.addVisited spread.fragment).fragmentIndex := by
                simp [Workspace.addVisited, seen, ← sameSeen, index]
              have visited' : (w.addVisited spread.fragment).visited =
                  (w'.addVisited spread.fragment).visited := by
                simp [Workspace.addVisited, seen, ← sameSeen, visited]
              have sameFound : (w.addVisited spread.fragment).fragment? doc spread.fragment =
                  (w'.addVisited spread.fragment).fragment? doc spread.fragment := by
                rw [Workspace.fragment?, index', Workspace.fragment?]
              simp only [Bool.false_eq_true, if_false, sameFound]
              cases (w'.addVisited spread.fragment).fragment? doc spread.fragment with
              | none => exact ih queue index' visited'
              | some frag =>
                  obtain ⟨reached, marked⟩ :=
                    ih (queue ++ frag.selections.spreads) index' visited'
                  exact ⟨by dsimp only; rw [reached], marked⟩

theorem reachable_congr (doc : Document) (set : SelectionSet) {w w' : Workspace}
    (index : w.fragmentIndex = w'.fragmentIndex) (visited : w.visited = w'.visited) :
    (reachable doc set w).1 = (reachable doc set w').1 ∧
      (reachable doc set w).2.visited = (reachable doc set w').2.visited :=
  reachableWithin_congr doc _ set.spreads index visited

/-- **Marking is exact.**  Started with marks that lead to marked names only,
`reachable` marks the names that can be reached from the selection set, and
gives the definition of each newly marked name that has one, once. -/
theorem marks_reachable {doc : Document} (set : SelectionSet) {w : Workspace}
    (bound : w.BoundTo doc)
    (closed : doc.ClosedUpTo [] w.visited) :
    doc.Marks set.spreadNames w.visited (reachable doc set w).1
      (reachable doc set w).2.visited :=
  (explores_reachable set bound).marks (closed.mono (List.nil_subset _))

/-- The marks that `reachable` leaves lead to marked names only. -/
theorem Document.Marks.closed {doc : Document} {queue before after : List String}
    {reached : List Fragment} (h : doc.Marks queue before reached after)
    (closed : doc.ClosedUpTo [] before) : doc.ClosedUpTo [] after := by
  intro a mem b edge
  rw [h.mem_after] at mem ⊢
  rcases mem with old | ⟨first, inQueue, path⟩
  · rcases closed a old b edge with isMarked | inNothing
    · exact Or.inl (Or.inl isMarked)
    · cases inNothing
  · exact Or.inl (Or.inr ⟨first, inQueue, path.tail edge⟩)

/-- Without earlier marks `reachable` marks the names that can be reached. -/
theorem mem_visited_reachable_clearVisited {doc : Document} (set : SelectionSet)
    {w : Workspace} (bound : w.BoundTo doc) (name : String) :
    name ∈ (reachable doc set w.clearVisited).2.visited ↔ doc.Reaches set name := by
  have marks := marks_reachable set (w := w.clearVisited) bound (Document.ClosedUpTo.nil doc [])
  have noMarks : w.clearVisited.visited = [] := rfl
  rw [marks.mem_after, noMarks, Document.Reaches]
  simp

/-- Without earlier marks `reachable` gives the definitions that can be
reached. -/
theorem mem_reachable_clearVisited {doc : Document} (set : SelectionSet) {w : Workspace}
    (bound : w.BoundTo doc) (frag : Fragment) :
    frag ∈ (reachable doc set w.clearVisited).1 ↔ doc.ReachesFragment set frag := by
  have marks := marks_reachable set (w := w.clearVisited) bound (Document.ClosedUpTo.nil doc [])
  have noMarks : w.clearVisited.visited = [] := rfl
  rw [marks.mem_reached, mem_visited_reachable_clearVisited set bound, noMarks,
    Document.ReachesFragment]
  simp

end GraphQLStatics
