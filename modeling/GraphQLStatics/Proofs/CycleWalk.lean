import Mathlib.Data.List.Chain
import GraphQLStatics.Proofs.Gains
import GraphQLStatics.Validation.Fragments

/-!
# The walk along spreads

The search for cycles walks along spreads with a stack of fragments.  A step of
the walk is one of four moves (`CycleWalk.Move`): it leaves a fragment, passes
over a spread, closes a cycle or enters a fragment.  Everything here is proved
by looking at these moves once.

## Main Definitions

* `CycleWalk.Move`: what a step can do
* `CycleWalk.Inv`: the stack, the path and the marks fit together
* `CycleWalk.work`: a bound for the steps that are left
* `Searches`: every walk of the search ends

## Main Statements

* `checkCycles_onto`: earlier violations do not influence the search
* `CycleWalk.Inv.move`: every move keeps the parts of a walk together
* `run_enter_eq`: a walk leaves every fragment that it has entered
* `searches_foldl_checkCycle`: the search takes as many steps as it needs
* `Searches.keep`: what the search keeps up from walk to walk
-/

namespace GraphQLStatics

/-! ### Marks -/

namespace Workspace

theorem mark_setMark (w : Workspace) (name : String) (m : Mark) (other : String) :
    (w.setMark name m).mark other = if other = name then m else w.mark other := by
  simp only [mark, setMark, OrderedMap.find?_insert]
  split <;> rfl

@[simp] theorem mark_pushSpread (w : Workspace) (added name : String) :
    (w.pushSpread added).mark name = w.mark name :=
  rfl

@[simp] theorem mark_popSpread (w : Workspace) (name : String) :
    w.popSpread.mark name = w.mark name :=
  rfl

end Workspace

/-! ### What a step can do -/

namespace CycleWalk

/-- The moves of a walk. -/
inductive Move (doc : Document) : CycleWalk → CycleWalk → Prop
  /-- The innermost fragment has no more spreads. -/
  | leave (frag : Fragment) (rest : List CycleFrame) (w : Workspace) :
      Move doc ⟨⟨frag, []⟩ :: rest, w⟩ ⟨rest, w.popSpread.setMark frag.name .done⟩
  /-- A spread leads to a finished fragment, or to none. -/
  | pass (frag : Fragment) (spread : SpreadUse) (pending : List SpreadUse)
      (rest : List CycleFrame) (w : Workspace)
      (settled : w.mark spread.fragment = .done ∨ doc.lastFragment? spread.fragment = none) :
      Move doc ⟨⟨frag, spread :: pending⟩ :: rest, w⟩ ⟨⟨frag, pending⟩ :: rest, w⟩
  /-- A spread leads to a fragment on the path. -/
  | close (frag : Fragment) (spread : SpreadUse) (pending : List SpreadUse)
      (rest : List CycleFrame) (w : Workspace)
      (onPath : w.mark spread.fragment = .inProgress) :
      Move doc ⟨⟨frag, spread :: pending⟩ :: rest, w⟩
        ⟨⟨frag, pending⟩ :: rest,
          w.report (.fragmentCycle spread.fragment (cyclePath w spread.fragment)
            (doc.place spread.position))⟩
  /-- A spread leads to a fragment that was not visited. -/
  | enter (frag : Fragment) (spread : SpreadUse) (pending : List SpreadUse)
      (rest : List CycleFrame) (w : Workspace) (target : Fragment)
      (unvisited : w.mark spread.fragment = .unvisited)
      (found : doc.lastFragment? spread.fragment = some target) :
      Move doc ⟨⟨frag, spread :: pending⟩ :: rest, w⟩
        (CycleWalk.enter ⟨⟨frag, pending⟩ :: rest, w⟩ target)

/-- As long as some fragment is on the way, a step is a move. -/
theorem move_step {doc : Document} {walk : CycleWalk} (bound : walk.workspace.BoundTo doc)
    (onTheWay : walk.frames ≠ []) : Move doc walk (walk.step doc) := by
  obtain ⟨frames, w⟩ := walk
  cases frames with
  | nil => exact absurd rfl onTheWay
  | cons top rest =>
      obtain ⟨frag, pending⟩ := top
      cases pending with
      | nil => exact Move.leave frag rest w
      | cons spread pending =>
          simp only [step, follow]
          cases marked : w.mark spread.fragment with
          | done => exact Move.pass frag spread pending rest w (Or.inl marked)
          | inProgress => exact Move.close frag spread pending rest w marked
          | unvisited =>
              simp only [bound.fragment?_eq]
              cases found : doc.lastFragment? spread.fragment with
              | none => exact Move.pass frag spread pending rest w (Or.inr found)
              | some target => exact Move.enter frag spread pending rest w target marked found

theorem Move.fragmentIndex {doc : Document} {walk walk' : CycleWalk}
    (move : Move doc walk walk') :
    walk'.workspace.fragmentIndex = walk.workspace.fragmentIndex := by
  cases move <;> rfl

/-- What every move keeps up is kept up by a whole walk. -/
theorem run_of_move {doc : Document} {P : CycleWalk → Prop}
    (keeps : ∀ walk walk', walk.workspace.BoundTo doc → Move doc walk walk' → P walk → P walk')
    (n : Nat) {walk : CycleWalk} (bound : walk.workspace.BoundTo doc) (h : P walk) :
    P (run doc n walk) := by
  induction n generalizing walk with
  | zero => exact h
  | succ n ih =>
      rw [run]
      by_cases empty : walk.frames = []
      · simpa [empty] using h
      · have move := move_step bound empty
        have bound' : (walk.step doc).workspace.BoundTo doc := move.fragmentIndex.trans bound
        simpa [empty] using ih bound' (keeps walk _ bound move h)

end CycleWalk

/-! ### Earlier violations do not matter -/

/-- The workspace `prior` with the search in `w` carried out in it. -/
def Workspace.onto (w prior : Workspace) : Workspace :=
  { prior with
    violations := prior.violations ++ w.violations
    marks := w.marks
    spreadPath := w.spreadPath }

theorem Workspace.report_onto (w prior : Workspace) (v : Violation) :
    (w.onto prior).report v = (w.report v).onto prior := by
  simp [Workspace.report, Workspace.onto]

namespace CycleWalk

/-- The walk with its workspace carried over to `prior`. -/
def onto (walk : CycleWalk) (prior : Workspace) : CycleWalk :=
  { walk with workspace := walk.workspace.onto prior }

theorem step_onto {doc : Document} {walk : CycleWalk} {prior : Workspace}
    (bound : walk.workspace.BoundTo doc) (priorBound : prior.BoundTo doc) :
    (walk.onto prior).step doc = (walk.step doc).onto prior := by
  obtain ⟨frames, w⟩ := walk
  cases frames with
  | nil => rfl
  | cons top rest =>
      obtain ⟨frag, pending⟩ := top
      cases pending with
      | nil => rfl
      | cons spread pending =>
          have ontoBound : (w.onto prior).BoundTo doc := priorBound
          have sameMark : (w.onto prior).mark spread.fragment = w.mark spread.fragment := rfl
          simp only [step, follow, onto, sameMark]
          cases w.mark spread.fragment with
          | done => rfl
          | inProgress =>
              simp only [Workspace.report_onto]
              rfl
          | unvisited =>
              simp only [ontoBound.fragment?_eq, bound.fragment?_eq]
              cases doc.lastFragment? spread.fragment with
              | none => rfl
              | some target => rfl

theorem run_onto {doc : Document} (n : Nat) {walk : CycleWalk} {prior : Workspace}
    (bound : walk.workspace.BoundTo doc) (priorBound : prior.BoundTo doc) :
    (walk.onto prior).run doc n = (walk.run doc n).onto prior := by
  induction n generalizing walk with
  | zero => rfl
  | succ n ih =>
      rw [run, run]
      have sameFrames : (walk.onto prior).frames = walk.frames := rfl
      by_cases empty : walk.frames = []
      · simp [sameFrames, empty]
      · have bound' : (walk.step doc).workspace.BoundTo doc :=
          (move_step bound empty).fragmentIndex.trans bound
        simp only [sameFrames, List.isEmpty_iff, empty, if_false]
        rw [step_onto bound priorBound, ih bound']

end CycleWalk

/-- A walk leaves the index as it is. -/
theorem walkFrom_boundTo {doc : Document} (frag : Fragment) {w : Workspace}
    (bound : w.BoundTo doc) : (walkFrom doc frag w).BoundTo doc :=
  CycleWalk.run_of_move (P := fun walk => walk.workspace.BoundTo doc)
    (fun _ _ _ move h => move.fragmentIndex.trans h) _ bound bound

theorem checkCycle_boundTo {doc : Document} (frag : Fragment) {w : Workspace}
    (bound : w.BoundTo doc) : (checkCycle doc w frag).BoundTo doc := by
  unfold checkCycle
  split
  · split
    · exact walkFrom_boundTo _ bound
    · exact bound
  · exact bound

theorem checkCycle_onto {doc : Document} (frag : Fragment) {w prior : Workspace}
    (bound : w.BoundTo doc) (priorBound : prior.BoundTo doc) :
    checkCycle doc (w.onto prior) frag = (checkCycle doc w frag).onto prior := by
  have ontoBound : (w.onto prior).BoundTo doc := priorBound
  have sameMark : (w.onto prior).mark frag.name = w.mark frag.name := rfl
  unfold checkCycle
  rw [sameMark, ontoBound.fragment?_eq, bound.fragment?_eq]
  cases w.mark frag.name with
  | done => rfl
  | inProgress => rfl
  | unvisited =>
      cases doc.lastFragment? frag.name with
      | none => rfl
      | some target =>
          have startBound : (CycleWalk.enter ⟨[], w⟩ target).workspace.BoundTo doc := bound
          exact congrArg CycleWalk.workspace (CycleWalk.run_onto _ startBound priorBound)

/-- **Earlier violations do not influence the search.**  Carried over to a
workspace that is bound to the same document, it finds the same. -/
theorem checkCycles_onto {doc : Document} {w prior : Workspace} (bound : w.BoundTo doc)
    (priorBound : prior.BoundTo doc) :
    checkCycles doc (w.onto prior) = (checkCycles doc w).onto prior := by
  unfold checkCycles
  induction doc.fragments generalizing w with
  | nil => rfl
  | cons frag rest ih =>
      rw [List.foldl_cons, List.foldl_cons, checkCycle_onto frag bound priorBound]
      exact ih (checkCycle_boundTo frag bound)

/-! ### The stack, the path and the marks -/

namespace CycleWalk

/-- The names of the fragments on the way, the innermost first. -/
def names (walk : CycleWalk) : List String :=
  walk.frames.map (·.fragment.name)

/-- How the parts of a walk fit together. -/
structure Inv (doc : Document) (walk : CycleWalk) : Prop where
  /-- The path holds the fragments on the way, the outermost first. -/
  path : walk.workspace.spreadPath = walk.names.reverse
  /-- No fragment is on the way twice. -/
  nodup : walk.names.Nodup
  /-- The marks tell which fragments are on the way. -/
  inProgress : ∀ name, walk.workspace.mark name = .inProgress ↔ name ∈ walk.names
  /-- Only definitions that spreads stand for are on the way. -/
  isLast : ∀ frame ∈ walk.frames, doc.lastFragment? frame.fragment.name = some frame.fragment
  /-- What is still to be looked at are the last spreads of the fragment. -/
  pending : ∀ frame ∈ walk.frames, frame.pending <:+ frame.fragment.selections.spreads
  /-- Each fragment on the way spreads the one above it. -/
  chain : walk.names.IsChain fun upper lower => doc.Leads lower upper

namespace Inv

variable {doc : Document} {frag target : Fragment} {spread : SpreadUse}
  {pending : List SpreadUse} {frames rest : List CycleFrame} {w : Workspace}

theorem report (inv : Inv doc ⟨frames, w⟩) (v : Violation) : Inv doc ⟨frames, w.report v⟩ :=
  ⟨inv.path, inv.nodup, inv.inProgress, inv.isLast, inv.pending, inv.chain⟩

/-- A spread was looked at. -/
theorem tick (inv : Inv doc ⟨⟨frag, spread :: pending⟩ :: rest, w⟩) :
    Inv doc ⟨⟨frag, pending⟩ :: rest, w⟩ := by
  refine ⟨inv.path, inv.nodup, inv.inProgress, ?_, ?_, inv.chain⟩
  · intro frame mem
    rcases List.mem_cons.mp mem with rfl | below
    · exact inv.isLast ⟨frag, spread :: pending⟩ List.mem_cons_self
    · exact inv.isLast frame (List.mem_cons_of_mem _ below)
  · intro frame mem
    rcases List.mem_cons.mp mem with rfl | below
    · exact (List.suffix_cons spread pending).trans
        (inv.pending ⟨frag, spread :: pending⟩ List.mem_cons_self)
    · exact inv.pending frame (List.mem_cons_of_mem _ below)

/-- The fragment at the top spreads what it has pending. -/
theorem leads (inv : Inv doc ⟨⟨frag, spread :: pending⟩ :: rest, w⟩) :
    doc.Leads frag.name spread.fragment := by
  refine ⟨frag, inv.isLast ⟨frag, spread :: pending⟩ List.mem_cons_self, ?_⟩
  exact List.mem_map_of_mem
    ((inv.pending ⟨frag, spread :: pending⟩ List.mem_cons_self).mem List.mem_cons_self)

/-- Leaving the fragment at the top. -/
theorem leave (inv : Inv doc ⟨⟨frag, []⟩ :: rest, w⟩) :
    Inv doc ⟨rest, w.popSpread.setMark frag.name .done⟩ := by
  obtain ⟨notBelow, nodup⟩ := List.nodup_cons.mp inv.nodup
  have path : w.spreadPath = (CycleWalk.names ⟨rest, w⟩).reverse ++ [frag.name] := by
    simpa [names] using inv.path
  refine ⟨?_, nodup, ?_, ?_, ?_, inv.chain.tail⟩
  · change w.spreadPath.dropLast = _
    rw [path, List.dropLast_concat]
    rfl
  · intro name
    have before := inv.inProgress name
    change (w.popSpread.setMark frag.name .done).mark name = _ ↔ name ∈ rest.map _
    rw [Workspace.mark_setMark, Workspace.mark_popSpread]
    by_cases same : name = frag.name
    · subst same
      simpa [names] using notBelow
    · simpa [names, same] using before
  · intro frame mem
    exact inv.isLast frame (List.mem_cons_of_mem _ mem)
  · intro frame mem
    exact inv.pending frame (List.mem_cons_of_mem _ mem)

/-- Entering a fragment that was not visited and that the top spreads. -/
theorem enter (inv : Inv doc ⟨frames, w⟩) (unvisited : w.mark target.name = .unvisited)
    (isLast : doc.lastFragment? target.name = some target)
    (edge : ∀ top ∈ (CycleWalk.names ⟨frames, w⟩).head?, doc.Leads top target.name) :
    Inv doc (CycleWalk.enter ⟨frames, w⟩ target) := by
  have notOnTheWay : target.name ∉ CycleWalk.names ⟨frames, w⟩ := by
    rw [← inv.inProgress]
    change w.mark target.name ≠ _
    rw [unvisited]
    decide
  refine ⟨?_, List.nodup_cons.mpr ⟨notOnTheWay, inv.nodup⟩, ?_, ?_, ?_, ?_⟩
  · have path := inv.path
    change w.spreadPath ++ [target.name] = (target.name :: CycleWalk.names ⟨frames, w⟩).reverse
    rw [List.reverse_cons, ← path]
  · intro name
    have before := inv.inProgress name
    change ((w.setMark target.name .inProgress).pushSpread target.name).mark name = _ ↔
      name ∈ target.name :: CycleWalk.names ⟨frames, w⟩
    rw [Workspace.mark_pushSpread, Workspace.mark_setMark, List.mem_cons, ← before]
    by_cases same : name = target.name
    · simp [same]
    · simp [same]
  · intro frame mem
    rcases List.mem_cons.mp mem with rfl | below
    · exact isLast
    · exact inv.isLast frame below
  · intro frame mem
    rcases List.mem_cons.mp mem with rfl | below
    · exact List.suffix_rfl
    · exact inv.pending frame below
  · exact List.isChain_cons.mpr ⟨edge, inv.chain⟩

end Inv

/-- Every move keeps the parts of a walk together. -/
theorem Inv.move {doc : Document} {walk walk' : CycleWalk} (inv : Inv doc walk)
    (move : Move doc walk walk') : Inv doc walk' := by
  cases move with
  | leave frag rest w => exact inv.leave
  | pass frag spread pending rest w settled => exact inv.tick
  | close frag spread pending rest w onPath => exact inv.tick.report _
  | enter frag spread pending rest w target unvisited found =>
      have sameName : target.name = spread.fragment := (Document.mem_of_lastFragment? found).2
      refine inv.tick.enter (sameName ▸ unvisited) (sameName ▸ found) ?_
      intro top isTop
      cases isTop
      rw [sameName]
      exact inv.leads

/-- A fragment that was visited once stays so. -/
theorem Move.visited {doc : Document} {walk walk' : CycleWalk} (move : Move doc walk walk')
    {name : String} (visited : walk.workspace.mark name ≠ .unvisited) :
    walk'.workspace.mark name ≠ .unvisited := by
  cases move with
  | leave frag rest w =>
      rw [Workspace.mark_setMark]
      split
      · decide
      · exact visited
  | pass => exact visited
  | close => exact visited
  | enter frag spread pending rest w target unvisited found =>
      change ((w.setMark target.name .inProgress).pushSpread target.name).mark name ≠ _
      rw [Workspace.mark_pushSpread, Workspace.mark_setMark]
      split
      · decide
      · exact visited

/-! ### The steps suffice -/

/-- The steps that the fragments on the way still take. -/
def frameWork : List CycleFrame → Nat
  | [] => 0
  | frame :: rest => frame.pending.length + 1 + frameWork rest

/-- The steps that fragments take when all of those that are not visited have
yet to be entered. -/
def unvisitedWork (doc : Document) (w : Workspace) : Nat :=
  openCost (fun frag => frag.selections.spreads.length + 1)
    (fun name => w.mark name = .unvisited) doc.fragments

/-- A bound for the steps that a walk takes. -/
def work (doc : Document) (walk : CycleWalk) : Nat :=
  frameWork walk.frames + unvisitedWork doc walk.workspace

theorem unvisitedWork_le (doc : Document) (w : Workspace) :
    unvisitedWork doc w ≤ doc.spreadCount + doc.fragments.length := by
  unfold unvisitedWork Document.spreadCount
  induction doc.fragments with
  | nil => exact Nat.le_refl _
  | cons frag rest ih =>
      simp only [openCost, List.foldr_cons, List.length_cons]
      split <;> omega

/-- Setting a mark that says visited opens no work. -/
theorem unvisitedWork_setMark_le (doc : Document) (w : Workspace) (name : String) {m : Mark}
    (isVisit : m ≠ .unvisited) : unvisitedWork doc (w.setMark name m) ≤ unvisitedWork doc w := by
  refine openCost_mono _ ?_ _
  intro other
  rw [decide_eq_true_eq, decide_eq_true_eq, Workspace.mark_setMark]
  split
  · intro same
    exact absurd same isVisit
  · exact id

/-- Entering a fragment pays for its steps. -/
theorem unvisitedWork_enter {doc : Document} {w : Workspace} {target : Fragment}
    (mem : target ∈ doc.fragments) (unvisited : w.mark target.name = .unvisited) :
    unvisitedWork doc (w.setMark target.name .inProgress) +
      (target.selections.spreads.length + 1) ≤ unvisitedWork doc w := by
  refine openCost_close (fun frag => frag.selections.spreads.length + 1) ?_ ?_ ?_ mem
  · intro other
    rw [decide_eq_true_eq, decide_eq_true_eq, Workspace.mark_setMark]
    split
    · intro same
      cases same
    · exact id
  · simpa using unvisited
  · simp [Workspace.mark_setMark]

/-- Every move is paid for. -/
theorem Move.work_lt {doc : Document} {walk walk' : CycleWalk} (move : Move doc walk walk') :
    work doc walk' < work doc walk := by
  cases move with
  | leave frag rest w =>
      have := unvisitedWork_setMark_le doc w.popSpread frag.name (m := .done) (by decide)
      change frameWork rest + unvisitedWork doc (w.popSpread.setMark frag.name .done) <
        0 + 1 + frameWork rest + unvisitedWork doc w.popSpread
      omega
  | pass frag spread pending rest w settled =>
      simp only [work, frameWork, List.length_cons]
      omega
  | close frag spread pending rest w onPath =>
      change frameWork (⟨frag, pending⟩ :: rest) + unvisitedWork doc w <
        frameWork (⟨frag, spread :: pending⟩ :: rest) + unvisitedWork doc w
      simp only [frameWork, List.length_cons]
      omega
  | enter frag spread pending rest w target unvisited found =>
      obtain ⟨mem, sameName⟩ := Document.mem_of_lastFragment? found
      have paid := unvisitedWork_enter mem (sameName ▸ unvisited)
      change frameWork (⟨target, target.selections.spreads⟩ :: ⟨frag, pending⟩ :: rest) +
          unvisitedWork doc (w.setMark target.name .inProgress) <
        frameWork (⟨frag, spread :: pending⟩ :: rest) + unvisitedWork doc w
      simp only [frameWork, List.length_cons]
      omega

/-- With enough steps every fragment on the way is left. -/
theorem frames_run_eq_nil {doc : Document} (n : Nat) {walk : CycleWalk}
    (bound : walk.workspace.BoundTo doc) (enough : work doc walk ≤ n) :
    (run doc n walk).frames = [] := by
  induction n generalizing walk with
  | zero =>
      have empty : frameWork walk.frames = 0 := by
        unfold work at enough
        omega
      cases h : walk.frames with
      | nil => simpa [run] using h
      | cons top rest =>
          rw [h, frameWork] at empty
          omega
  | succ n ih =>
      rw [run]
      by_cases empty : walk.frames = []
      · simp [empty]
      · have move := move_step bound empty
        have := move.work_lt
        simp only [List.isEmpty_iff, empty, if_false]
        exact ih (move.fragmentIndex.trans bound) (by omega)

end CycleWalk

theorem CycleWalk.mark_enter (w : Workspace) (target : Fragment) (name : String) :
    (CycleWalk.enter ⟨[], w⟩ target).workspace.mark name =
      if name = target.name then .inProgress else w.mark name :=
  Workspace.mark_setMark w target.name .inProgress name

/-- The steps of a walk suffice for the fragment that it enters first and for the
fragments that are not visited yet. -/
theorem run_enter_eq {doc : Document} {target : Fragment} {w : Workspace}
    (bound : w.BoundTo doc) (unvisited : w.mark target.name = .unvisited)
    (isLast : doc.lastFragment? target.name = some target) :
    (CycleWalk.enter ⟨[], w⟩ target).run doc (doc.spreadCount + doc.fragments.length) =
      ⟨[], walkFrom doc target w⟩ := by
  have paid := CycleWalk.unvisitedWork_enter (Document.mem_of_lastFragment? isLast).1 unvisited
  have total := CycleWalk.unvisitedWork_le doc w
  have finished : ((CycleWalk.enter ⟨[], w⟩ target).run doc
      (doc.spreadCount + doc.fragments.length)).frames = [] := by
    refine CycleWalk.frames_run_eq_nil _ bound ?_
    change target.selections.spreads.length + 1 + 0 +
      CycleWalk.unvisitedWork doc (w.setMark target.name .inProgress) ≤ _
    omega
  exact congrArg (CycleWalk.mk · (walkFrom doc target w)) finished

/-! ### The search without a number of steps -/

/-- Looking for cycles from some fragments in turn, where every walk goes on
until it has left all fragments.  No number of steps is given. -/
inductive Searches (doc : Document) : List Fragment → Workspace → Workspace → Prop
  | stop (w : Workspace) : Searches doc [] w w
  /-- The fragment was visited by an earlier walk. -/
  | skip {frag : Fragment} {frags : List Fragment} {w w' : Workspace}
      (visited : w.mark frag.name ≠ .unvisited) (rest : Searches doc frags w w') :
      Searches doc (frag :: frags) w w'
  /-- A walk begins at the fragment's last definition and ends. -/
  | walk {frag target : Fragment} {frags : List Fragment} {w w' w'' : Workspace}
      (unvisited : w.mark frag.name = .unvisited)
      (found : doc.lastFragment? frag.name = some target)
      (ends : Relation.ReflTransGen (CycleWalk.Move doc) (CycleWalk.enter ⟨[], w⟩ target) ⟨[], w'⟩)
      (rest : Searches doc frags w' w'') : Searches doc (frag :: frags) w w''

/-- A walk from an unvisited fragment makes some moves and ends. -/
theorem moves_walkFrom {doc : Document} {target : Fragment} {w : Workspace}
    (bound : w.BoundTo doc) (unvisited : w.mark target.name = .unvisited)
    (isLast : doc.lastFragment? target.name = some target) :
    Relation.ReflTransGen (CycleWalk.Move doc) (CycleWalk.enter ⟨[], w⟩ target)
      ⟨[], walkFrom doc target w⟩ := by
  have startBound : (CycleWalk.enter ⟨[], w⟩ target).workspace.BoundTo doc := bound
  rw [← run_enter_eq bound unvisited isLast]
  exact CycleWalk.run_of_move
    (P := Relation.ReflTransGen (CycleWalk.Move doc) (CycleWalk.enter ⟨[], w⟩ target))
    (fun _ _ _ move moves => moves.tail move) _ startBound .refl

/-- Every walk of the search ends. -/
theorem searches_foldl_checkCycle {doc : Document} (frags : List Fragment)
    (sub : ∀ frag ∈ frags, frag ∈ doc.fragments) {w : Workspace} (bound : w.BoundTo doc) :
    Searches doc frags w (frags.foldl (checkCycle doc) w) := by
  induction frags generalizing w with
  | nil => exact .stop w
  | cons frag rest ih =>
      have later := ih (fun other mem => sub other (List.mem_cons_of_mem _ mem))
        (checkCycle_boundTo frag bound)
      rw [List.foldl_cons]
      unfold checkCycle at later ⊢
      cases marked : w.mark frag.name with
      | done =>
          rw [marked] at later
          exact .skip (by simp [marked]) later
      | inProgress =>
          rw [marked] at later
          exact .skip (by simp [marked]) later
      | unvisited =>
          obtain ⟨target, found⟩ := Option.isSome_iff_exists.mp
            (Document.isSome_lastFragment?_of_mem (sub frag List.mem_cons_self))
          have sameName : target.name = frag.name := (Document.mem_of_lastFragment? found).2
          simp only [marked, bound.fragment?_eq, found] at later ⊢
          refine .walk marked found ?_ later
          rw [← sameName] at marked found
          exact moves_walkFrom bound marked found

/-- What every move keeps up is kept up by moves in a row. -/
theorem CycleWalk.moves_keep {doc : Document} {P : CycleWalk → Prop}
    (move : ∀ walk walk', CycleWalk.Move doc walk walk' → P walk → P walk')
    {walk walk' : CycleWalk} (moves : Relation.ReflTransGen (CycleWalk.Move doc) walk walk')
    (h : P walk) : P walk' := by
  induction moves with
  | refl => exact h
  | tail _ last ih => exact move _ _ last ih

/-- What every move and the beginning of every walk keep up is kept up by the
search. -/
theorem Searches.keep {doc : Document} {P : CycleWalk → Prop}
    (enter : ∀ w target, w.mark target.name = .unvisited →
      doc.lastFragment? target.name = some target → P ⟨[], w⟩ →
        P (CycleWalk.enter ⟨[], w⟩ target))
    (move : ∀ walk walk', CycleWalk.Move doc walk walk' → P walk → P walk')
    {frags : List Fragment} {w w' : Workspace} (searches : Searches doc frags w w')
    (h : P ⟨[], w⟩) : P ⟨[], w'⟩ := by
  induction searches with
  | stop w => exact h
  | skip _ _ ih => exact ih h
  | walk unvisited found ends _ ih =>
      have sameName := (Document.mem_of_lastFragment? found).2
      rw [← sameName] at unvisited found
      exact ih (CycleWalk.moves_keep move ends (enter _ _ unvisited found h))

/-- The search keeps what was visited. -/
theorem Searches.visited {doc : Document} {frags : List Fragment} {w w' : Workspace}
    (searches : Searches doc frags w w') {name : String} (before : w.mark name ≠ .unvisited) :
    w'.mark name ≠ .unvisited := by
  refine searches.keep (P := fun walk => walk.workspace.mark name ≠ .unvisited) ?_
    (fun _ _ move visited => move.visited visited) before
  intro w target _ _ visited
  rw [CycleWalk.mark_enter]
  split
  · decide
  · exact visited

/-- The search from some fragments visits all of them. -/
theorem Searches.visits {doc : Document} {frags : List Fragment} {w w' : Workspace}
    (searches : Searches doc frags w w') : ∀ frag ∈ frags, w'.mark frag.name ≠ .unvisited := by
  induction searches with
  | stop w => simp
  | skip visited rest ih => exact List.forall_mem_cons.mpr ⟨rest.visited visited, ih⟩
  | @walk frag target frags w w₁ w₂ unvisited found ends rest ih =>
      have sameName : target.name = frag.name := (Document.mem_of_lastFragment? found).2
      have entered : (CycleWalk.enter ⟨[], w⟩ target).workspace.mark frag.name ≠ .unvisited := by
        rw [CycleWalk.mark_enter, if_pos sameName.symm]
        decide
      have left := CycleWalk.moves_keep (fun _ _ move visited => move.visited visited) ends entered
      exact List.forall_mem_cons.mpr ⟨rest.visited left, ih⟩

end GraphQLStatics
