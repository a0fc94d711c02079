import Mathlib.Data.List.Forall2
import GraphQLStatics.Proofs.CycleWalk
import GraphQLStatics.Proofs.Nesting

/-!
# The cycles that the search reports

Every spread in the last definition of a fragment is an edge of the graph of
spreads.  Two spreads of one fragment within another are two edges, so that an
edge is given by its place, a `SpreadSite`, and not by its ends.

The search reports some of these edges.  Each report comes with a path that the
edge closes to a cycle, and once the reported edges are cut out of the graph no
cycle is left.  What carries the second part is that a path from a finished
fragment that avoids the edges reported so far comes to an end: `Traced` holds
the list of these edges along a walk.

## Main Definitions

* `SpreadSite`, `Document.Edge`: the edges of the graph of spreads
* `Document.HasCycle`: the graph without some edges has a cycle
* `Document.Closes`: a violation reports that an edge closes a cycle
* `CycleWalk.Traced`: what holds of a walk and the edges that it has reported

## Main Statements

* `CycleWalk.Traced.move`: every move keeps track of what is reported
* `exists_traced_checkCycles`: what the whole search reports
* `checkCycles_violations_eq_nil_iff`: nothing is reported if and only if
  spreads form no cycle
-/

namespace GraphQLStatics

/-! ### Spreads as edges -/

/-- A place within the last definition of a fragment: the name of the fragment,
and an address within its selections. -/
structure SpreadSite where
  fragment : String
  path : List Nat
  deriving DecidableEq, Repr

namespace Document

/-- The spread at a site. -/
def spreadAt? (doc : Document) (site : SpreadSite) : Option SpreadUse :=
  (doc.lastFragment? site.fragment).bind fun frag => frag.selections.spreadAt? site.path

/-- The spread at the site leads from the fragment `a` to the fragment `b`, which
is defined. -/
structure Edge (doc : Document) (site : SpreadSite) (a b : String) : Prop where
  source : site.fragment = a
  target : (doc.spreadAt? site).map (·.fragment) = some b
  defined : (doc.lastFragment? b).isSome

/-- A spread that is not cut leads from `a` to `b`. -/
def LeadsPast (doc : Document) (cut : List SpreadSite) (a b : String) : Prop :=
  ∃ site, site ∉ cut ∧ doc.Edge site a b

/-- The spreads that are not cut form a cycle. -/
def HasCycle (doc : Document) (cut : List SpreadSite) : Prop :=
  ∃ name, Relation.TransGen (doc.LeadsPast cut) name name

/-- Spreads form no cycle. -/
def Acyclic (doc : Document) : Prop :=
  ∀ name, ¬ Relation.TransGen doc.Leads name name

theorem spreadAt?_of_lastFragment? {doc : Document} {name : String} {frag : Fragment}
    (found : doc.lastFragment? name = some frag) (path : List Nat) :
    doc.spreadAt? ⟨name, path⟩ = frag.selections.spreadAt? path := by
  simp only [spreadAt?, found, Option.bind_some]

theorem LeadsPast.leads {doc : Document} {cut : List SpreadSite} {a b : String}
    (edge : doc.LeadsPast cut a b) : doc.Leads a b := by
  obtain ⟨site, -, rfl, target, -⟩ := edge
  obtain ⟨spread, at_, rfl⟩ := Option.map_eq_some_iff.mp target
  obtain ⟨frag, found, at_⟩ := Option.bind_eq_some_iff.mp at_
  exact ⟨frag, found, List.mem_map_of_mem (SelectionSet.mem_spreads.mpr ⟨_, at_⟩)⟩

/-- With nothing cut, a fragment leads to the defined ones that it spreads. -/
theorem Leads.leadsPast_nil {doc : Document} {a b : String} (edge : doc.Leads a b)
    (defined : (doc.lastFragment? b).isSome) : doc.LeadsPast [] a b := by
  obtain ⟨frag, found, isSpread⟩ := edge
  obtain ⟨spread, mem, rfl⟩ := List.mem_map.mp isSpread
  obtain ⟨path, at_⟩ := SelectionSet.mem_spreads.mp mem
  refine ⟨⟨a, path⟩, List.not_mem_nil, rfl, ?_, defined⟩
  rw [spreadAt?_of_lastFragment? found, at_]
  rfl

/-- A cycle passes through fragments that are defined only. -/
theorem hasCycle_nil_iff (doc : Document) : doc.HasCycle [] ↔ ¬ doc.Acyclic := by
  have defined : ∀ {a b : String}, Relation.TransGen doc.Leads a b →
      (doc.lastFragment? a).isSome := by
    intro a b path
    obtain ⟨c, ⟨frag, found, -⟩, -⟩ := Relation.TransGen.head'_iff.mp path
    simp [found]
  simp only [HasCycle, Acyclic, not_forall, not_not]
  refine exists_congr fun name => ⟨fun cycle => ?_, fun cycle => ?_⟩
  · exact Relation.TransGen.mono (fun _ _ => LeadsPast.leads) _ _ cycle
  · have lifted : ∀ {a : String}, Relation.TransGen doc.Leads a name →
        Relation.TransGen (doc.LeadsPast []) a name := by
      intro a path
      induction path using Relation.TransGen.head_induction_on with
      | single edge => exact .single (edge.leadsPast_nil (defined cycle))
      | head edge rest ih => exact .head (edge.leadsPast_nil (defined rest)) ih
    exact lifted cycle

/-! ### Paths that end -/

/-- No path along spreads that are not cut goes on for ever from a name. -/
def EndsPast (doc : Document) (cut : List SpreadSite) (name : String) : Prop :=
  Acc (fun b a => doc.LeadsPast cut a b) name

namespace EndsPast

variable {doc : Document} {cut : List SpreadSite} {name : String}

/-- Cutting more spreads leaves fewer paths. -/
theorem mono {cut' : List SpreadSite} (ends : doc.EndsPast cut name) (sub : cut ⊆ cut') :
    doc.EndsPast cut' name := by
  refine Subrelation.accessible ?_ ends
  rintro b a ⟨site, notCut, edge⟩
  exact ⟨site, fun mem => notCut (sub mem), edge⟩

theorem of_undefined (undefined : doc.lastFragment? name = none) : doc.EndsPast cut name :=
  Acc.intro name fun _ edge => absurd edge.leads (not_leads_of_undefined undefined)

/-- The paths from a fragment end if those from its spreads end. -/
theorem of_defined {frag : Fragment} (found : doc.lastFragment? name = some frag)
    (ends : ∀ i spread, frag.selections.spreads[i]? = some spread →
      ⟨name, frag.selections.spreadAddress i⟩ ∈ cut ∨ doc.EndsPast cut spread.fragment) :
    doc.EndsPast cut name := by
  refine Acc.intro name ?_
  rintro b ⟨⟨_, path⟩, notCut, rfl, target, -⟩
  obtain ⟨spread, at_, rfl⟩ := Option.map_eq_some_iff.mp target
  rw [spreadAt?_of_lastFragment? found] at at_
  obtain ⟨i, rfl, isSpread⟩ := SelectionSet.spreadAt?_eq_some_iff.mp at_
  exact (ends i spread isSpread).resolve_left notCut

/-- A name on a cycle starts a path that goes on for ever. -/
theorem not_cycle (ends : doc.EndsPast cut name) :
    ¬ Relation.TransGen (doc.LeadsPast cut) name name := by
  induction ends with
  | intro a _ ih =>
      intro cycle
      obtain ⟨b, edge, path⟩ := Relation.TransGen.head'_iff.mp cycle
      exact ih b edge (Relation.TransGen.tail' path edge)

end EndsPast

/-! ### Reports -/

/-- The violation reports that the spread at the site closes a cycle. -/
inductive Closes (doc : Document) (site : SpreadSite) : Violation → Prop
  /-- The path leads along spreads from the fragment that is spread back to it,
  and passes no fragment twice.  The last spread on it is the one that is
  reported, which stands in the last fragment but one. -/
  | cycle {spread : SpreadUse} {path : List String}
      (found : doc.spreadAt? site = some spread)
      (first : path.head? = some spread.fragment)
      (last : path.getLast? = some spread.fragment)
      (edges : path.IsChain (doc.LeadsPast []))
      (distinct : path.dropLast.Nodup)
      (holder : path.dropLast.getLast? = some site.fragment) :
      Closes doc site (.fragmentCycle spread.fragment path (doc.place spread.position))

/-- A report gives evidence of a cycle. -/
theorem Closes.hasCycle {doc : Document} {site : SpreadSite} {v : Violation}
    (closes : doc.Closes site v) : doc.HasCycle [] := by
  obtain @⟨spread, path, -, first, last, edges, -, holder⟩ := closes
  refine ⟨spread.fragment, ?_⟩
  -- The path is not a single name, since some fragment comes before the last one.
  obtain ⟨front, rfl⟩ := List.getLast?_eq_some_iff.mp last
  rw [List.dropLast_concat] at holder
  obtain ⟨a, rest, rfl⟩ := List.exists_cons_of_ne_nil (List.ne_nil_of_mem
    (List.mem_of_getLast? holder))
  rw [List.cons_append, List.head?_cons, Option.some.injEq] at first
  subst first
  have paths := (edges.imp fun _ _ => Relation.TransGen.single).pairwise
  exact (List.pairwise_cons.mp paths).1 _ (by simp)

end Document

/-! ### Spreads that were looked at -/

/-- How many spreads of its fragment a frame has looked at. -/
def CycleFrame.seen (frame : CycleFrame) : Nat :=
  frame.fragment.selections.spreads.length - frame.pending.length

/-- The site of the spread with an index in the fragment of a frame. -/
noncomputable def CycleFrame.site (frame : CycleFrame) (i : Nat) : SpreadSite :=
  ⟨frame.fragment.name, frame.fragment.selections.spreadAddress i⟩

namespace CycleWalk

section

variable {doc : Document} {frag : Fragment} {spread : SpreadUse} {pending : List SpreadUse}
  {rest : List CycleFrame} {w : Workspace} {cut : List SpreadSite}

/-- The first pending spread comes right after those that were looked at. -/
theorem Inv.getElem?_seen (inv : Inv doc ⟨⟨frag, spread :: pending⟩ :: rest, w⟩) :
    frag.selections.spreads[(CycleFrame.mk frag (spread :: pending)).seen]? = some spread := by
  obtain ⟨front, split⟩ := inv.pending ⟨frag, spread :: pending⟩ List.mem_cons_self
  change front ++ spread :: pending = frag.selections.spreads at split
  simp [CycleFrame.seen, ← split]

theorem Inv.seen_tick (inv : Inv doc ⟨⟨frag, spread :: pending⟩ :: rest, w⟩) :
    (CycleFrame.mk frag pending).seen = (CycleFrame.mk frag (spread :: pending)).seen + 1 := by
  have fits := (inv.pending ⟨frag, spread :: pending⟩ List.mem_cons_self).length_le
  simp only [CycleFrame.seen, List.length_cons] at fits ⊢
  omega

/-- The site of the spread that a frame looks at next. -/
noncomputable def nextSite (frag : Fragment) (spread : SpreadUse) (pending : List SpreadUse) :
    SpreadSite :=
  CycleFrame.site ⟨frag, spread :: pending⟩ (CycleFrame.mk frag (spread :: pending)).seen

/-- The walk has looked at the spread at the site. -/
def LookedAt (walk : CycleWalk) (site : SpreadSite) : Prop :=
  walk.workspace.mark site.fragment = .done ∨
    ∃ frame ∈ walk.frames, ∃ i < frame.seen, frame.site i = site

/-- What was looked at stays so when the next spread is looked at. -/
theorem LookedAt.tick {site : SpreadSite}
    (lookedAt : LookedAt ⟨⟨frag, spread :: pending⟩ :: rest, w⟩ site) :
    LookedAt ⟨⟨frag, pending⟩ :: rest, w⟩ site := by
  rcases lookedAt with done | ⟨frame, mem, i, before, atSite⟩
  · exact Or.inl done
  · refine Or.inr ?_
    rcases List.mem_cons.mp mem with rfl | below
    · refine ⟨⟨frag, pending⟩, List.mem_cons_self, i, lt_of_lt_of_le before ?_, atSite⟩
      simp only [CycleFrame.seen, List.length_cons]
      omega
    · exact ⟨frame, List.mem_cons_of_mem _ below, i, before, atSite⟩

/-- Every move keeps what was looked at. -/
theorem LookedAt.move {walk walk' : CycleWalk} {site : SpreadSite}
    (lookedAt : walk.LookedAt site) (move : Move doc walk walk') : walk'.LookedAt site := by
  cases move with
  | leave frag rest w =>
      have becomes : (w.popSpread.setMark frag.name .done).mark site.fragment =
          if site.fragment = frag.name then .done else w.mark site.fragment :=
        Workspace.mark_setMark w.popSpread frag.name .done site.fragment
      rcases lookedAt with done | ⟨frame, mem, i, before, atSite⟩
      · exact Or.inl (by rw [becomes, done, ite_self])
      · rcases List.mem_cons.mp mem with rfl | below
        · have holds : site.fragment = frag.name := (congrArg SpreadSite.fragment atSite).symm
          exact Or.inl (by rw [becomes, if_pos holds])
        · exact Or.inr ⟨frame, below, i, before, atSite⟩
  | pass => exact lookedAt.tick
  | close => exact lookedAt.tick
  | enter frag spread pending rest w target unvisited found =>
      rcases lookedAt.tick with done | ⟨frame, mem, i, before, atSite⟩
      · refine Or.inl ?_
        change ((w.setMark target.name .inProgress).pushSpread target.name).mark
          site.fragment = _
        rw [Workspace.mark_pushSpread, Workspace.mark_setMark, if_neg]
        · exact done
        · intro same
          rw [(Document.mem_of_lastFragment? found).2] at same
          change w.mark site.fragment = _ at done
          rw [same, unvisited] at done
          cases done
      · exact Or.inr ⟨frame, List.mem_cons_of_mem _ mem, i, before, atSite⟩

/-- The spread that is looked at next was not looked at before. -/
theorem Inv.not_lookedAt (inv : Inv doc ⟨⟨frag, spread :: pending⟩ :: rest, w⟩) :
    ¬ LookedAt ⟨⟨frag, spread :: pending⟩ :: rest, w⟩ (nextSite frag spread pending) := by
  rintro (done | ⟨frame, mem, i, before, atSite⟩)
  · have onTheWay := (inv.inProgress frag.name).mpr List.mem_cons_self
    change w.mark frag.name = .done at done
    change w.mark frag.name = .inProgress at onTheWay
    rw [done] at onTheWay
    cases onTheWay
  · rcases List.mem_cons.mp mem with rfl | below
    · have isSpread := (List.getElem?_eq_some_iff.mp inv.getElem?_seen).1
      have same := SelectionSet.spreadAddress_inj (before.trans isSpread) isSpread
        (congrArg SpreadSite.path atSite)
      exact lt_irrefl _ (same ▸ before)
    · exact (List.nodup_cons.mp inv.nodup).1
        (List.mem_map.mpr ⟨frame, below, congrArg SpreadSite.fragment atSite⟩)

/-! ### A report is right -/

/-- The path of a walk leads along spreads. -/
theorem Inv.isChain_spreadPath {walk : CycleWalk} (inv : Inv doc walk) :
    walk.workspace.spreadPath.IsChain (doc.LeadsPast []) := by
  rw [inv.path, List.isChain_reverse]
  refine inv.chain.imp_of_mem_imp ?_
  intro upper lower mem _ edge
  obtain ⟨frame, inFrames, rfl⟩ := List.mem_map.mp mem
  exact edge.leadsPast_nil (by simp [inv.isLast frame inFrames])

/-- Where the path comes to a fragment, and what a cycle from there on is. -/
theorem Inv.exists_cyclePath {walk : CycleWalk} (inv : Inv doc walk) {name : String}
    (onPath : walk.workspace.mark name = .inProgress) :
    ∃ front back, walk.workspace.spreadPath = front ++ name :: back ∧
      cyclePath walk.workspace name = name :: back ++ [name] := by
  have mem : name ∈ walk.workspace.spreadPath := by
    rw [inv.path, List.mem_reverse]
    exact (inv.inProgress name).mp onPath
  obtain ⟨front, back, split, notBefore⟩ := List.eq_append_cons_of_mem mem
  have first : walk.workspace.spreadPath.idxOf? name = some front.length := by
    rw [List.idxOf?_eq_some_iff]
    refine ⟨by simp [split], by simp [split], ?_⟩
    intro j before same
    refine notBefore ?_
    rw [← same]
    simp [split, List.getElem_append_left before]
  refine ⟨front, back, split, ?_⟩
  rw [cyclePath, first, Option.getD_some, split, List.drop_left]

/-- What is reported when a spread leads back to the path. -/
theorem Inv.closes (inv : Inv doc ⟨⟨frag, spread :: pending⟩ :: rest, w⟩)
    (onPath : w.mark spread.fragment = .inProgress) :
    doc.Closes (nextSite frag spread pending)
      (.fragmentCycle spread.fragment (cyclePath w spread.fragment)
        (doc.place spread.position)) := by
  have isLast : doc.lastFragment? frag.name = some frag :=
    inv.isLast ⟨frag, spread :: pending⟩ List.mem_cons_self
  obtain ⟨front, back, split, cycle⟩ := inv.exists_cyclePath onPath
  have path : w.spreadPath = (CycleWalk.names ⟨rest, w⟩).reverse ++ [frag.name] := by
    simpa [names] using inv.path
  have holder : (spread.fragment :: back).getLast? = some frag.name := by
    have ends : w.spreadPath.getLast? = some frag.name := by rw [path, List.getLast?_concat]
    rwa [show w.spreadPath = _ from split,
      List.getLast?_append_of_ne_nil _ (List.cons_ne_nil _ _)] at ends
  have edge : doc.LeadsPast [] frag.name spread.fragment := by
    refine inv.leads.leadsPast_nil ?_
    obtain ⟨frame, mem, sameName⟩ := List.mem_map.mp ((inv.inProgress _).mp onPath)
    rw [← sameName, inv.isLast frame mem]
    rfl
  have nodup : w.spreadPath.Nodup := by
    rw [inv.path]
    exact List.nodup_reverse.mpr inv.nodup
  change cyclePath w spread.fragment = _ at cycle
  change w.spreadPath = _ at split
  rw [cycle]
  refine .cycle ?_ rfl List.getLast?_concat ?_ ?_ ?_
  · rw [nextSite, CycleFrame.site, Document.spreadAt?_of_lastFragment? isLast]
    exact SelectionSet.spreadAt?_eq_some_iff.mpr ⟨_, rfl, inv.getElem?_seen⟩
  · have chain := inv.isChain_spreadPath
    rw [show w.spreadPath = _ from split] at chain
    refine (chain.right_of_append).append (List.isChain_singleton _) ?_
    intro x isLast y isFirst
    rw [holder] at isLast
    cases isLast
    cases isFirst
    exact edge
  · rw [List.dropLast_concat]
    rw [split] at nodup
    exact (List.nodup_append.mp nodup).2.1
  · rw [List.dropLast_concat, holder]
    rfl

end

end CycleWalk

/-! ### What is left when the reported spreads are cut -/

/-- Of the spreads that the frame has looked at, each is cut or leads to paths
that end, apart from one that leads to the fragment `above`. -/
def CycleFrame.Settled (doc : Document) (cut : List SpreadSite) (above : Option String)
    (frame : CycleFrame) : Prop :=
  ∀ i < frame.seen, ∀ spread, frame.fragment.selections.spreads[i]? = some spread →
    frame.site i ∈ cut ∨ doc.EndsPast cut spread.fragment ∨
      above = some spread.fragment

namespace CycleWalk

/-- All frames have settled what they have looked at, apart from the spread that
leads to the frame above. -/
def Explored (doc : Document) (cut : List SpreadSite) : Option String → List CycleFrame → Prop
  | _, [] => True
  | above, frame :: rest =>
    frame.Settled doc cut above ∧ Explored doc cut (some frame.fragment.name) rest

section

variable {doc : Document} {frag : Fragment} {spread : SpreadUse} {pending : List SpreadUse}
  {rest frames : List CycleFrame} {w : Workspace} {cut cut' : List SpreadSite}
  {above : Option String} {name : String}

theorem Explored.mono (explored : Explored doc cut above frames) (sub : cut ⊆ cut') :
    Explored doc cut' above frames := by
  induction frames generalizing above with
  | nil => trivial
  | cons frame rest ih =>
      refine ⟨?_, ih explored.2⟩
      intro i before spread at_
      exact (explored.1 i before spread at_).imp (fun mem => sub mem)
        (Or.imp_left fun ends => ends.mono sub)

/-- Once the paths from the fragment above end, it needs no mention. -/
theorem Explored.forget (explored : Explored doc cut (some name) frames)
    (ends : doc.EndsPast cut name) : Explored doc cut none frames := by
  cases frames with
  | nil => trivial
  | cons frame rest =>
      refine ⟨?_, explored.2⟩
      intro i before spread at_
      rcases explored.1 i before spread at_ with isCut | settled | isAbove
      · exact Or.inl isCut
      · exact Or.inr (Or.inl settled)
      · exact Or.inr (Or.inl (Option.some.inj isAbove ▸ ends))

/-- A frame settles one spread more. -/
theorem Explored.tick (explored : Explored doc cut none (⟨frag, spread :: pending⟩ :: rest))
    (inv : Inv doc ⟨⟨frag, spread :: pending⟩ :: rest, w⟩)
    (settled : nextSite frag spread pending ∈ cut ∨
      doc.EndsPast cut spread.fragment ∨ above = some spread.fragment) :
    Explored doc cut above (⟨frag, pending⟩ :: rest) := by
  refine ⟨?_, explored.2⟩
  intro i before s at_
  rw [inv.seen_tick, Nat.lt_succ_iff_lt_or_eq] at before
  rcases before with earlier | rfl
  · rcases explored.1 i earlier s at_ with isCut | ends | isAbove
    · exact Or.inl isCut
    · exact Or.inr (Or.inl ends)
    · cases isAbove
  · have same : s = spread := Option.some.inj (at_.symm.trans inv.getElem?_seen)
    rw [same]
    exact settled

/-- The walk with the spreads that it has reported. -/
structure Traced (doc : Document) (cut : List SpreadSite) (walk : CycleWalk) : Prop where
  inv : Inv doc walk
  /-- The reports are right. -/
  reports : List.Forall₂ doc.Closes cut walk.workspace.violations
  /-- No spread is reported twice. -/
  nodup : cut.Nodup
  lookedAt : ∀ site ∈ cut, walk.LookedAt site
  /-- The paths from finished fragments end. -/
  done : ∀ name, walk.workspace.mark name = .done → doc.EndsPast cut name
  explored : Explored doc cut none walk.frames

/-- The paths from a fragment with no more spreads end. -/
theorem Traced.endsPast (traced : Traced doc cut ⟨⟨frag, []⟩ :: rest, w⟩) :
    doc.EndsPast cut frag.name := by
  refine .of_defined (traced.inv.isLast ⟨frag, []⟩ List.mem_cons_self) ?_
  intro i spread at_
  have before : i < (CycleFrame.mk frag []).seen := (List.getElem?_eq_some_iff.mp at_).1
  rcases traced.explored.1 i before spread at_ with isCut | ends | isAbove
  · exact Or.inl isCut
  · exact Or.inr ends
  · cases isAbove

/-- A spread that is reported now was not reported before. -/
theorem Traced.close (traced : Traced doc cut ⟨⟨frag, spread :: pending⟩ :: rest, w⟩)
    (onPath : w.mark spread.fragment = .inProgress) :
    Traced doc (cut ++ [nextSite frag spread pending])
      ⟨⟨frag, pending⟩ :: rest,
        w.report (.fragmentCycle spread.fragment (cyclePath w spread.fragment)
          (doc.place spread.position))⟩ := by
  have more : cut ⊆ cut ++ [nextSite frag spread pending] :=
    List.subset_append_left _ _
  refine ⟨traced.inv.tick.report _, ?_, ?_, ?_, ?_, ?_⟩
  · exact List.rel_append traced.reports (.cons (traced.inv.closes onPath) .nil)
  · refine List.nodup_append.mpr ⟨traced.nodup, List.nodup_singleton _, ?_⟩
    rintro site mem _ isNew rfl
    rw [List.mem_singleton.mp isNew] at mem
    exact traced.inv.not_lookedAt (traced.lookedAt _ mem)
  · intro site mem
    rcases List.mem_append.mp mem with old | new
    · exact (traced.lookedAt site old).tick
    · rw [List.mem_singleton.mp new]
      refine Or.inr ⟨⟨frag, pending⟩, List.mem_cons_self, _, ?_, rfl⟩
      rw [traced.inv.seen_tick]
      exact Nat.lt_succ_self _
  · intro name isDone
    exact (traced.done name isDone).mono more
  · exact (traced.explored.mono more).tick traced.inv (Or.inl (by simp))

end

/-- **Every move keeps track of what is reported.** -/
theorem Traced.move {doc : Document} {cut : List SpreadSite} {walk walk' : CycleWalk}
    (traced : Traced doc cut walk) (move : Move doc walk walk') :
    ∃ cut', Traced doc cut' walk' := by
  have inv' := traced.inv.move move
  have lookedAt' : ∀ site ∈ cut, walk'.LookedAt site :=
    fun site mem => (traced.lookedAt site mem).move move
  cases move with
  | leave frag rest w =>
      have ends := traced.endsPast
      refine ⟨cut, inv', traced.reports, traced.nodup, lookedAt', ?_,
        traced.explored.2.forget ends⟩
      intro name
      rw [Workspace.mark_setMark, Workspace.mark_popSpread]
      by_cases same : name = frag.name
      · intro _
        exact same ▸ ends
      · simpa [same] using traced.done name
  | pass frag spread pending rest w settled =>
      have ends : doc.EndsPast cut spread.fragment := by
        rcases settled with done | undefined
        · exact traced.done _ done
        · exact .of_undefined undefined
      exact ⟨cut, inv', traced.reports, traced.nodup, lookedAt', traced.done,
        traced.explored.tick traced.inv (Or.inr (Or.inl ends))⟩
  | close frag spread pending rest w onPath => exact ⟨_, traced.close onPath⟩
  | enter frag spread pending rest w target unvisited found =>
      have sameName : target.name = spread.fragment := (Document.mem_of_lastFragment? found).2
      refine ⟨cut, inv', traced.reports, traced.nodup, lookedAt', ?_, ?_,
        traced.explored.tick traced.inv (Or.inr (Or.inr (by rw [sameName])))⟩
      · intro name
        change ((w.setMark target.name .inProgress).pushSpread target.name).mark name = _ → _
        rw [Workspace.mark_pushSpread, Workspace.mark_setMark]
        by_cases same : name = target.name
        · simp [same]
        · simpa [same] using traced.done name
      · -- Nothing of the fragment that is entered was looked at.
        intro i before
        simp [CycleFrame.seen] at before

end CycleWalk

/-! ### The whole search -/

theorem traced_fresh (doc : Document) :
    CycleWalk.Traced doc [] ⟨[], Workspace.fresh.bindTo doc⟩ := by
  refine ⟨⟨rfl, List.nodup_nil, ?_, ?_, ?_, List.IsChain.nil⟩, .nil, List.nodup_nil, ?_, ?_,
    trivial⟩
  · intro name
    change Mark.unvisited = .inProgress ↔ name ∈ []
    simp
  · intro frame mem
    cases mem
  · intro frame mem
    cases mem
  · intro site mem
    cases mem
  · intro name isDone
    cases isDone

/-- A walk begins with what was reported before. -/
theorem CycleWalk.Traced.enter {doc : Document} {cut : List SpreadSite} {target : Fragment}
    {w : Workspace} (traced : CycleWalk.Traced doc cut ⟨[], w⟩)
    (unvisited : w.mark target.name = .unvisited)
    (isLast : doc.lastFragment? target.name = some target) :
    CycleWalk.Traced doc cut (CycleWalk.enter ⟨[], w⟩ target) := by
  have stays : ∀ name, w.mark name = .done →
      (CycleWalk.enter ⟨[], w⟩ target).workspace.mark name = .done := by
    intro name isDone
    rw [CycleWalk.mark_enter, if_neg]
    · exact isDone
    · rintro rfl
      rw [unvisited] at isDone
      cases isDone
  refine ⟨traced.inv.enter unvisited isLast ?_, traced.reports, traced.nodup, ?_, ?_, ?_,
    trivial⟩
  · intro top isTop
    cases isTop
  · intro site mem
    rcases traced.lookedAt site mem with isDone | ⟨frame, inNothing, -⟩
    · exact Or.inl (stays _ isDone)
    · cases inNothing
  · intro name
    rw [CycleWalk.mark_enter]
    split
    · intro notDone
      cases notDone
    · exact traced.done name
  · intro i before
    simp [CycleFrame.seen] at before

/-- The search keeps track of what is reported. -/
theorem Searches.traced {doc : Document} {frags : List Fragment} {w w' : Workspace}
    (searches : Searches doc frags w w') {cut : List SpreadSite}
    (traced : CycleWalk.Traced doc cut ⟨[], w⟩) :
    ∃ cut', CycleWalk.Traced doc cut' ⟨[], w'⟩ := by
  refine searches.keep (P := fun walk => ∃ cut, CycleWalk.Traced doc cut walk) ?_ ?_ ⟨cut, traced⟩
  · rintro w target unvisited isLast ⟨cut, traced⟩
    exact ⟨cut, traced.enter unvisited isLast⟩
  · rintro walk walk' move ⟨cut, traced⟩
    exact traced.move move

/-- **What the search reports.**  Some spreads are reported, each of them once
and with a cycle that it closes, and without them spreads form no cycle. -/
theorem exists_traced_checkCycles (doc : Document) :
    ∃ cut : List SpreadSite, cut.Nodup ∧
      List.Forall₂ doc.Closes cut (checkCycles doc (Workspace.fresh.bindTo doc)).violations ∧
      ¬ doc.HasCycle cut := by
  have searches := searches_foldl_checkCycle doc.fragments (fun _ mem => mem)
    (Workspace.boundTo_bindTo .fresh doc)
  obtain ⟨cut, traced⟩ := searches.traced (traced_fresh doc)
  refine ⟨cut, traced.nodup, traced.reports, ?_⟩
  rintro ⟨name, cycle⟩
  -- A name on a cycle is defined, so the search has finished it.
  obtain ⟨b, edge, -⟩ := Relation.TransGen.head'_iff.mp cycle
  obtain ⟨frag, found, -⟩ := edge.leads
  obtain ⟨mem, rfl⟩ := Document.mem_of_lastFragment? found
  refine (traced.done frag.name ?_).not_cycle cycle
  change (checkCycles doc (Workspace.fresh.bindTo doc)).mark frag.name = .done
  cases marked : (checkCycles doc (Workspace.fresh.bindTo doc)).mark frag.name with
  | done => rfl
  | inProgress => exact absurd ((traced.inv.inProgress frag.name).mp marked) List.not_mem_nil
  | unvisited => exact absurd marked (searches.visits frag mem)

/-- Everything that the search reports is a cycle. -/
theorem exists_closes_of_mem_checkCycles {doc : Document} {v : Violation}
    (mem : v ∈ (checkCycles doc (Workspace.fresh.bindTo doc)).violations) :
    ∃ site, doc.Closes site v := by
  obtain ⟨cut, -, reports, -⟩ := exists_traced_checkCycles doc
  obtain ⟨i, inReports, rfl⟩ := List.getElem_of_mem mem
  exact ⟨_, reports.get (reports.length_eq ▸ inReports) inReports⟩

/-- **The search for cycles is exact.**  It reports nothing if and only if
spreads form no cycle. -/
theorem checkCycles_violations_eq_nil_iff (doc : Document) :
    (checkCycles doc (Workspace.fresh.bindTo doc)).violations = [] ↔ doc.Acyclic := by
  obtain ⟨cut, -, reports, none⟩ := exists_traced_checkCycles doc
  generalize (checkCycles doc (Workspace.fresh.bindTo doc)).violations = reported at reports ⊢
  cases reports with
  | nil =>
      rw [doc.hasCycle_nil_iff, not_not] at none
      exact iff_of_true rfl none
  | cons closes _ =>
      exact iff_of_false (List.cons_ne_nil _ _) (doc.hasCycle_nil_iff.mp closes.hasCycle)

instance (doc : Document) : Decidable doc.Acyclic :=
  decidable_of_iff _ (checkCycles_violations_eq_nil_iff doc)

end GraphQLStatics
