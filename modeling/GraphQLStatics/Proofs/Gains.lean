import GraphQLStatics.Proofs.Earlier
import GraphQLStatics.Proofs.SpreadGraph

/-!
# What a check adds to a workspace

Every check takes a workspace and gives it back with more violations.  `Gains`
says which ones, and that the parts on which later checks rely are as before.
The names and the visited fragments are left open, because every check that
reads them clears them first.

Checks run along lists.  A check that looks at one element at a time gains
what it gains at each element; a check that compares names with those met
before gains what `withEarlier` gathers, where every element sees the elements
before it.

## Main Definitions

* `Workspace.Adds`, `Workspace.Gains`: a workspace with violations added
* `Workspace.Knows`: the names of a workspace are those of the earlier elements

## Main Statements

* `Workspace.gains_foldl`: a check along a list
* `Workspace.gains_foldl_withEarlier`: a check along a list that keeps names
-/

namespace GraphQLStatics

namespace Workspace

/-- `w'` is `w` with the violations `found` added.  All of the scratch may have
changed, and nothing else. -/
structure Adds (w : Workspace) (found : List Violation) (w' : Workspace) : Prop where
  violations : w'.violations = w.violations ++ found
  fragmentIndex : w'.fragmentIndex = w.fragmentIndex
  generation : w'.generation = w.generation

/-- `w'` is `w` with the violations `found` added.  Names and visited fragments
may have changed, and nothing else. -/
structure Gains (w : Workspace) (found : List Violation) (w' : Workspace) : Prop
    extends w.Adds found w' where
  marks : w'.marks = w.marks
  spreadPath : w'.spreadPath = w.spreadPath

/-- Checks one after the other add what they add in turn. -/
theorem Adds.trans {w w' w'' : Workspace} {found more : List Violation}
    (h : w.Adds found w') (h' : w'.Adds more w'') : w.Adds (found ++ more) w'' where
  violations := by rw [h'.violations, h.violations, List.append_assoc]
  fragmentIndex := h'.fragmentIndex.trans h.fragmentIndex
  generation := h'.generation.trans h.generation

namespace Gains

variable {w w' w'' : Workspace} {found more : List Violation}

theorem refl (w : Workspace) : w.Gains [] w :=
  ⟨⟨(List.append_nil _).symm, rfl, rfl⟩, rfl, rfl⟩

theorem trans (h : w.Gains found w') (h' : w'.Gains more w'') : w.Gains (found ++ more) w'' where
  toAdds := h.toAdds.trans h'.toAdds
  marks := h'.marks.trans h.marks
  spreadPath := h'.spreadPath.trans h.spreadPath

theorem report (w : Workspace) (v : Violation) : w.Gains [v] (w.report v) :=
  ⟨⟨rfl, rfl, rfl⟩, rfl, rfl⟩

theorem clearNames (w : Workspace) : w.Gains [] w.clearNames :=
  ⟨⟨(List.append_nil _).symm, rfl, rfl⟩, rfl, rfl⟩

theorem clearVisited (w : Workspace) : w.Gains [] w.clearVisited :=
  ⟨⟨(List.append_nil _).symm, rfl, rfl⟩, rfl, rfl⟩

theorem addName (w : Workspace) (name : String) : w.Gains [] (w.addName name) := by
  unfold Workspace.addName
  split
  · exact refl w
  · exact ⟨⟨(List.append_nil _).symm, rfl, rfl⟩, rfl, rfl⟩

/-- Marking fragments as reached gains nothing. -/
theorem reachable (doc : Document) (set : SelectionSet) (w : Workspace) :
    w.Gains [] (GraphQLStatics.reachable doc set w).2 := by
  obtain ⟨visited, frame⟩ := reachableWithin_frame doc
    (set.spreads.length + doc.spreadCount) set.spreads w
  rw [GraphQLStatics.reachable, frame]
  exact ⟨⟨(List.append_nil _).symm, rfl, rfl⟩, rfl, rfl⟩

/-- A violation that is reported unless a test passes. -/
theorem report_unless (w : Workspace) (test : Bool) (v : Violation) :
    w.Gains (if test then [] else [v]) (if test then w else w.report v) := by
  cases test with
  | true => exact refl w
  | false => exact report w v

theorem boundTo (h : w.Gains found w') {doc : Document} (bound : w.BoundTo doc) :
    w'.BoundTo doc :=
  h.fragmentIndex.trans bound

end Gains

/-- A check along a list gains what it gains at each element, as long as it
keeps up what it relies on. -/
theorem gains_foldl_of_invariant {α : Type} {P : Workspace → Prop}
    {check : Workspace → α → Workspace} {found : α → List Violation}
    (step : ∀ (w : Workspace) (x : α), P w → w.Gains (found x) (check w x) ∧ P (check w x))
    (l : List α) {w : Workspace} (inv : P w) :
    w.Gains (l.flatMap found) (l.foldl check w) := by
  induction l generalizing w with
  | nil => exact Gains.refl w
  | cons x rest ih =>
      obtain ⟨head, inv'⟩ := step w x inv
      exact head.trans (ih inv')

/-- A check along a list that relies on the index of a document. -/
theorem gains_foldl {α : Type} {doc : Document} {check : Workspace → α → Workspace}
    {found : α → List Violation}
    (step : ∀ (w : Workspace) (x : α), w.BoundTo doc → w.Gains (found x) (check w x))
    (l : List α) {w : Workspace} (bound : w.BoundTo doc) :
    w.Gains (l.flatMap found) (l.foldl check w) := by
  refine gains_foldl_of_invariant (P := fun w => w.BoundTo doc) ?_ l bound
  intro w x bound
  have head := step w x bound
  exact ⟨head, head.boundTo bound⟩

/-- Reporting violations one after another gains them all. -/
theorem gains_foldl_report (vs : List Violation) (w : Workspace) :
    w.Gains vs (vs.foldl Workspace.report w) := by
  induction vs generalizing w with
  | nil => exact Gains.refl w
  | cons v rest ih => exact (Gains.report w v).trans (ih (w.report v))

end Workspace

/-! ### Checks that keep names -/

namespace Workspace

/-- The names of a workspace are those that some earlier element counts for. -/
def Knows {α : Type} (w : Workspace) (counts : String → α → Bool) (earlier : List α) : Prop :=
  ∀ name, w.hasName name = earlier.any (counts name)

theorem knows_clearNames {α : Type} (w : Workspace) (counts : String → α → Bool) :
    w.clearNames.Knows counts [] := by
  intro name
  rfl

@[simp] theorem hasName_report (w : Workspace) (v : Violation) (name : String) :
    (w.report v).hasName name = w.hasName name :=
  rfl

theorem hasName_addName (w : Workspace) (name other : String) :
    (w.addName name).hasName other = (w.hasName other || decide (other = name)) := by
  unfold addName
  split
  · next known =>
      by_cases same : other = name
      · simp [same, known]
      · simp [same]
  · simp [hasName]

/-- A name that is noted, with a violation if it was met before. -/
theorem gains_note (w : Workspace) (name : String) (v : Violation) :
    w.Gains (if w.hasName name then [v] else [])
      (if w.hasName name then w.report v else w.addName name) := by
  cases w.hasName name with
  | true => exact Gains.report w v
  | false => exact Gains.addName w name

theorem hasName_note (w : Workspace) (name : String) (v : Violation) (other : String) :
    (if w.hasName name then w.report v else w.addName name).hasName other =
      (w.hasName other || decide (other = name)) := by
  cases known : w.hasName name with
  | true =>
      rw [if_pos rfl, hasName_report]
      by_cases same : other = name
      · simp [same, known]
      · simp [same]
  | false => exact hasName_addName w name other

theorem Knows.snoc {α : Type} {w w' : Workspace} {counts : String → α → Bool}
    {earlier : List α} {x : α} (knows : w.Knows counts earlier)
    (step : ∀ name, w'.hasName name = (w.hasName name || counts name x)) :
    w'.Knows counts (earlier ++ [x]) := by
  intro name
  rw [step, knows]
  simp

/-- A check along a list that keeps the names it has met gains what each
element gives in view of the earlier ones. -/
theorem gains_foldl_withEarlier {α : Type} {check : Workspace → α → Workspace}
    {found : List α → α → List Violation} {counts : String → α → Bool}
    (step : ∀ (w : Workspace) (earlier : List α) (x : α), w.Knows counts earlier →
      w.Gains (found earlier x) (check w x) ∧ (check w x).Knows counts (earlier ++ [x]))
    (l : List α) {w : Workspace} {earlier : List α} (knows : w.Knows counts earlier) :
    w.Gains (withEarlier found earlier l) (l.foldl check w) := by
  induction l generalizing w earlier with
  | nil => exact Gains.refl w
  | cons x rest ih =>
      obtain ⟨head, knows'⟩ := step w earlier x knows
      exact head.trans (ih knows')

end Workspace

end GraphQLStatics
