import GraphQLStatics.Proofs.CycleWalk

/-!
# What the search for cycles keeps up

The search for cycles keeps three things apart: the stack of fragments on the
way, the path that reports are made from, and the marks of fragments.  They are
changed at different moments, and the marks stay from one walk to the next.  This
file says what holds of the three together before every step of every walk.

A fragment here is the last definition with its name, since the search looks at
no other.

## Main Definitions

* `CycleWalk.InStep`: the stack, the path and the marks are in step
* `CycleWalk.Swept`: the same with what the walk still has to look at
* `WalksFrom`: the walks that a search makes

## Main Statements

* `CycleWalk.Swept.move`: every move keeps a walk swept
* `Searches.swept`: the search leaves a swept workspace behind
* `checkCycles_in_step`: every step of every walk of the search
-/

namespace GraphQLStatics

/-! ### In step -/

namespace CycleWalk

/-- The stack, the path and the marks are in step. -/
structure InStep (doc : Document) (walk : CycleWalk) : Prop where
  /-- The path holds the names of the fragments on the way, the outermost first. -/
  path : walk.workspace.spreadPath = (walk.frames.map (·.fragment.name)).reverse
  /-- No name is on the path twice. -/
  nodup : walk.workspace.spreadPath.Nodup
  /-- The fragments in progress are those on the path. -/
  inProgress : ∀ name, walk.workspace.mark name = .inProgress ↔ name ∈ walk.workspace.spreadPath
  /-- Where a spread leads to a fragment in progress, the path has a place for it. -/
  placed : ∀ name, walk.workspace.mark name = .inProgress →
    ∃ i, walk.workspace.spreadPath.idxOf? name = some i
  /-- What a finished fragment spreads is finished or in progress, if it is defined. -/
  finished : ∀ name frag, walk.workspace.mark name = .done →
    walk.workspace.fragment? doc name = some frag → ∀ spread ∈ frag.selections.spreads,
      (walk.workspace.fragment? doc spread.fragment).isSome →
        walk.workspace.mark spread.fragment = .done ∨
          walk.workspace.mark spread.fragment = .inProgress

/-! ### What was looked at -/

/-- The name is that of no fragment, or of one that was visited. -/
def Met (doc : Document) (walk : CycleWalk) (name : String) : Prop :=
  doc.lastFragment? name = none ∨ walk.workspace.mark name ≠ .unvisited

/-- Of the spreads that a finished fragment holds, and of those that a fragment on
the way holds, all were met but those that are pending. -/
structure Swept (doc : Document) (walk : CycleWalk) : Prop where
  inv : Inv doc walk
  finished : ∀ name frag, walk.workspace.mark name = .done → doc.lastFragment? name = some frag →
    ∀ spread ∈ frag.selections.spreads, Met doc walk spread.fragment
  begun : ∀ frame ∈ walk.frames, ∀ spread ∈ frame.fragment.selections.spreads,
    spread ∈ frame.pending ∨ Met doc walk spread.fragment

section

variable {doc : Document} {walk walk' : CycleWalk}

theorem Met.move {name : String} (met : Met doc walk name) (move : Move doc walk walk') :
    Met doc walk' name :=
  met.imp_right move.visited

/-- A fragment is finished when it is left, and not otherwise. -/
theorem Move.done_cases (move : Move doc walk walk') {name : String}
    (done : walk'.workspace.mark name = .done) :
    walk.workspace.mark name = .done ∨
      ∃ frame ∈ walk.frames, frame.pending = [] ∧ frame.fragment.name = name := by
  cases move with
  | leave frag rest w =>
      rw [Workspace.mark_setMark] at done
      split at done
      · next same => exact Or.inr ⟨⟨frag, []⟩, List.mem_cons_self, rfl, same.symm⟩
      · exact Or.inl done
  | pass => exact Or.inl done
  | close => exact Or.inl done
  | enter frag spread pending rest w target unvisited found =>
      change (w.setMark target.name .inProgress).mark name = .done at done
      rw [Workspace.mark_setMark] at done
      split at done
      · cases done
      · exact Or.inl done

/-- A frame was there before, or is new with all of its spreads pending, or one of its
spreads was looked at and met. -/
theorem Move.frame_cases (move : Move doc walk walk') {frame : CycleFrame}
    (mem : frame ∈ walk'.frames) :
    frame ∈ walk.frames ∨ frame.pending = frame.fragment.selections.spreads ∨
      ∃ spread, ⟨frame.fragment, spread :: frame.pending⟩ ∈ walk.frames ∧
        Met doc walk' spread.fragment := by
  cases move with
  | leave frag rest w => exact Or.inl (List.mem_cons_of_mem _ mem)
  | pass frag spread pending rest w settled =>
      rcases List.mem_cons.mp mem with rfl | below
      · refine Or.inr (Or.inr ⟨spread, List.mem_cons_self, ?_⟩)
        rcases settled with done | undefined
        · exact Or.inr (by rw [done]; decide)
        · exact Or.inl undefined
      · exact Or.inl (List.mem_cons_of_mem _ below)
  | close frag spread pending rest w onPath =>
      rcases List.mem_cons.mp mem with rfl | below
      · refine Or.inr (Or.inr ⟨spread, List.mem_cons_self, Or.inr ?_⟩)
        show w.mark spread.fragment ≠ .unvisited
        rw [onPath]
        decide
      · exact Or.inl (List.mem_cons_of_mem _ below)
  | enter frag spread pending rest w target unvisited found =>
      have sameName : target.name = spread.fragment := (Document.mem_of_lastFragment? found).2
      rcases List.mem_cons.mp mem with rfl | mem
      · exact Or.inr (Or.inl rfl)
      · rcases List.mem_cons.mp mem with rfl | below
        · refine Or.inr (Or.inr ⟨spread, List.mem_cons_self, Or.inr ?_⟩)
          show (w.setMark target.name .inProgress).mark spread.fragment ≠ .unvisited
          rw [Workspace.mark_setMark, if_pos sameName.symm]
          decide
        · exact Or.inl (List.mem_cons_of_mem _ below)

/-- Every move keeps a walk swept. -/
theorem Swept.move (swept : Swept doc walk) (move : Move doc walk walk') : Swept doc walk' := by
  refine ⟨swept.inv.move move, ?_, ?_⟩
  · intro name frag done found spread mem
    rcases move.done_cases done with before | ⟨frame, onTheWay, noMore, rfl⟩
    · exact (swept.finished name frag before found spread mem).move move
    · -- The fragment is left now, so that none of its spreads is pending.
      have same : frame.fragment = frag :=
        Option.some.inj ((swept.inv.isLast frame onTheWay).symm.trans found)
      rcases swept.begun frame onTheWay spread (same ▸ mem) with isPending | met
      · rw [noMore] at isPending
        cases isPending
      · exact met.move move
  · intro frame mem spread isSpread
    rcases move.frame_cases mem with before | fresh | ⟨looked, before, met⟩
    · exact (swept.begun frame before spread isSpread).imp_right (·.move move)
    · exact Or.inl (fresh ▸ isSpread)
    · rcases swept.begun _ before spread isSpread with isPending | metBefore
      · rcases List.mem_cons.mp isPending with rfl | isPending
        · exact Or.inr met
        · exact Or.inl isPending
      · exact Or.inr (metBefore.move move)

end

/-- A walk begins swept where the walks before it have left off so. -/
theorem Swept.enter {doc : Document} {w : Workspace} {target : Fragment}
    (swept : Swept doc ⟨[], w⟩) (unvisited : w.mark target.name = .unvisited)
    (isLast : doc.lastFragment? target.name = some target) :
    Swept doc (CycleWalk.enter ⟨[], w⟩ target) := by
  have noTop : ∀ top ∈ (CycleWalk.names ⟨[], w⟩).head?, doc.Leads top target.name :=
    fun _ isTop => absurd isTop (Option.not_mem_none _)
  refine ⟨swept.inv.enter unvisited isLast noTop, ?_, ?_⟩
  · intro name frag done found spread mem
    rw [mark_enter] at done
    split at done
    · cases done
    · refine (swept.finished name frag done found spread mem).imp_right ?_
      intro visited
      rw [mark_enter]
      split
      · decide
      · exact visited
  · intro frame mem spread isSpread
    cases List.mem_singleton.mp mem
    exact Or.inl isSpread

/-- Without marks and without a path nothing is left to be swept. -/
theorem swept_start (doc : Document) {w : Workspace} (unmarked : w.marks = .empty)
    (noPath : w.spreadPath = []) : Swept doc ⟨[], w⟩ := by
  have unvisited (name : String) : w.mark name = .unvisited := by
    rw [Workspace.mark, unmarked]
    rfl
  refine ⟨⟨noPath, List.nodup_nil, ?_, ?_, ?_, List.IsChain.nil⟩, ?_, ?_⟩
  · intro name
    show w.mark name = .inProgress ↔ name ∈ []
    simp [unvisited]
  · exact fun _ mem => absurd mem List.not_mem_nil
  · exact fun _ mem => absurd mem List.not_mem_nil
  · intro name frag done
    rw [show w.mark name = .unvisited from unvisited name] at done
    cases done
  · exact fun _ mem => absurd mem List.not_mem_nil

/-- A swept walk is in step. -/
theorem Swept.inStep {doc : Document} {walk : CycleWalk} (swept : Swept doc walk)
    (bound : walk.workspace.BoundTo doc) : InStep doc walk := by
  have path := swept.inv.path
  have onPath (name : String) :
      walk.workspace.mark name = .inProgress ↔ name ∈ walk.workspace.spreadPath := by
    rw [path, List.mem_reverse]
    exact swept.inv.inProgress name
  refine ⟨path, ?_, onPath, ?_, ?_⟩
  · rw [path]
    exact List.nodup_reverse.mpr swept.inv.nodup
  · intro name inProgress
    exact Option.isSome_iff_exists.mp (List.isSome_idxOf?.mpr ((onPath name).mp inProgress))
  · intro name frag done found spread mem defined
    rw [bound.fragment?_eq] at found defined
    rcases swept.finished name frag done found spread mem with undefined | visited
    · rw [undefined] at defined
      cases defined
    · cases marked : walk.workspace.mark spread.fragment with
      | unvisited => exact absurd marked visited
      | inProgress => exact Or.inr rfl
      | done => exact Or.inl rfl

end CycleWalk

/-! ### The whole search -/

/-- The search leaves a swept workspace behind. -/
theorem Searches.swept {doc : Document} {frags : List Fragment} {w w' : Workspace}
    (searches : Searches doc frags w w') (swept : CycleWalk.Swept doc ⟨[], w⟩) :
    CycleWalk.Swept doc ⟨[], w'⟩ :=
  searches.keep (fun _ _ unvisited isLast swept => swept.enter unvisited isLast)
    (fun _ _ move swept => swept.move move) swept

theorem foldl_checkCycle_boundTo {doc : Document} (frags : List Fragment) {w : Workspace}
    (bound : w.BoundTo doc) : (frags.foldl (checkCycle doc) w).BoundTo doc := by
  induction frags generalizing w with
  | nil => exact bound
  | cons frag rest ih => exact ih (checkCycle_boundTo frag bound)

/-- The search for cycles in a document that begins with the workspace `w` makes a
walk from the fragment `target`, and has the workspace `w'` when that walk begins. -/
inductive WalksFrom (doc : Document) (w : Workspace) : Fragment → Workspace → Prop
  /-- The walks from the fragments before it have not come to the fragment. -/
  | intro (before after : List Fragment) (frag target : Fragment)
      (split : doc.fragments = before ++ frag :: after)
      (unvisited : (before.foldl (checkCycle doc) w).mark frag.name = .unvisited)
      (found : (before.foldl (checkCycle doc) w).fragment? doc frag.name = some target) :
      WalksFrom doc w target (before.foldl (checkCycle doc) w)

/-- When a walk begins, everything is ready for it. -/
theorem WalksFrom.ready {doc : Document} {w w' : Workspace} {target : Fragment}
    (walks : WalksFrom doc w target w') (bound : w.BoundTo doc)
    (swept : CycleWalk.Swept doc ⟨[], w⟩) :
    w'.BoundTo doc ∧ CycleWalk.Swept doc ⟨[], w'⟩ ∧ w'.mark target.name = .unvisited ∧
      doc.lastFragment? target.name = some target := by
  obtain ⟨before, after, frag, target, split, unvisited, found⟩ := walks
  have bound' := foldl_checkCycle_boundTo before bound
  have listed : ∀ other ∈ before, other ∈ doc.fragments := by
    intro other mem
    rw [split]
    exact List.mem_append_left _ mem
  rw [bound'.fragment?_eq] at found
  have sameName : target.name = frag.name := (Document.mem_of_lastFragment? found).2
  rw [← sameName] at unvisited found
  exact ⟨bound', (searches_foldl_checkCycle before listed bound).swept swept, unvisited, found⟩

/-- **The search for cycles stays in step.**  It begins with a workspace that is bound to
the document, without marks and without a path.  Before every step of every walk the
stack, the path and the marks are in step.  Every walk ends by itself, with an empty
path and with no fragment in progress.  In the end every fragment is finished. -/
theorem checkCycles_in_step {doc : Document} {w : Workspace} (bound : w.BoundTo doc)
    (unmarked : w.marks = .empty) (noPath : w.spreadPath = []) :
    (∀ target w', WalksFrom doc w target w' → ∀ n,
      ((CycleWalk.enter ⟨[], w'⟩ target).run doc n).InStep doc) ∧
    (∀ target w', WalksFrom doc w target w' →
      (CycleWalk.enter ⟨[], w'⟩ target).run doc (doc.spreadCount + doc.fragments.length) =
        ⟨[], walkFrom doc target w'⟩ ∧
      (walkFrom doc target w').spreadPath = [] ∧
      ∀ name, (walkFrom doc target w').mark name ≠ .inProgress) ∧
    ∀ frag ∈ doc.fragments, (checkCycles doc w).mark frag.name = .done := by
  have start := CycleWalk.swept_start doc unmarked noPath
  -- All three parts are read off the states of the search, which are swept.
  have states : ∀ target w', WalksFrom doc w target w' → ∀ n,
      ((CycleWalk.enter ⟨[], w'⟩ target).run doc n).InStep doc := by
    intro target w' walks n
    obtain ⟨bound', swept, unvisited, isLast⟩ := walks.ready bound start
    have begun : CycleWalk.Swept doc (CycleWalk.enter ⟨[], w'⟩ target) :=
      swept.enter unvisited isLast
    have startBound : (CycleWalk.enter ⟨[], w'⟩ target).workspace.BoundTo doc := bound'
    refine CycleWalk.Swept.inStep ?_ ?_
    · exact CycleWalk.run_of_move (fun _ _ _ move swept => swept.move move) n startBound begun
    · exact CycleWalk.run_of_move (P := fun walk => walk.workspace.BoundTo doc)
        (fun _ _ _ move bound => move.fragmentIndex.trans bound) n startBound startBound
  refine ⟨states, ?_, ?_⟩
  · intro target w' walks
    obtain ⟨bound', -, unvisited, isLast⟩ := walks.ready bound start
    have ends := run_enter_eq bound' unvisited isLast
    have last := states target w' walks (doc.spreadCount + doc.fragments.length)
    rw [ends] at last
    refine ⟨ends, last.path, ?_⟩
    intro name inProgress
    have onPath := (last.inProgress name).mp inProgress
    rw [last.path] at onPath
    cases onPath
  · intro frag mem
    have searches := searches_foldl_checkCycle doc.fragments (fun _ mem => mem) bound
    have swept := searches.swept start
    cases marked : (checkCycles doc w).mark frag.name with
    | done => rfl
    | inProgress => exact absurd ((swept.inv.inProgress frag.name).mp marked) List.not_mem_nil
    | unvisited => exact absurd marked (searches.visits frag mem)

/-- Two fragments that spread each other, of which the second also spreads a third one
and one that is not defined.  The first is defined twice, and its first definition spreads
itself. -/
def mutualFragments : Document :=
  let spreads (names : List String) : SelectionSet :=
    .ofList (names.map fun name => .spread ⟨⟨1, 1⟩, name, []⟩)
  let fragment (name : String) (names : List String) : Definition :=
    .fragment ⟨⟨1, 1⟩, name, "Query", [], spreads names⟩
  ⟨[fragment "A" ["A"], fragment "B" ["A", "C", "D"], fragment "A" ["B"], fragment "C" []], none⟩

theorem checkCycles_in_step_mutualFragments :
    let w := Workspace.fresh.bindTo mutualFragments
    w.BoundTo mutualFragments ∧ w.marks = .empty ∧ w.spreadPath = [] ∧
    (∃ target, WalksFrom mutualFragments w target w ∧
      ((CycleWalk.enter ⟨[], w⟩ target).run mutualFragments 3).workspace.spreadPath =
        ["A", "B", "C"] ∧
      ((CycleWalk.enter ⟨[], w⟩ target).run mutualFragments 3).InStep mutualFragments ∧
      (walkFrom mutualFragments target w).spreadPath = []) ∧
    ∀ frag ∈ mutualFragments.fragments, (checkCycles mutualFragments w).mark frag.name = .done := by
  obtain ⟨states, ends, finished⟩ := checkCycles_in_step
    (Workspace.boundTo_bindTo .fresh mutualFragments) rfl rfl
  have walks : WalksFrom mutualFragments (Workspace.fresh.bindTo mutualFragments) _ _ :=
    .intro [] _ _ _ rfl rfl rfl
  exact ⟨rfl, rfl, rfl, ⟨_, walks, rfl, states _ _ walks 3, (ends _ _ walks).2.1⟩, finished⟩

end GraphQLStatics
