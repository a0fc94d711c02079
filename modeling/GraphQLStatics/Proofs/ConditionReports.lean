import GraphQLStatics.Proofs.FragmentReports
import GraphQLStatics.Proofs.SelectionScopes

/-!
# What is reported about type conditions and spreads

The rule about fragments looks at the type condition of every fragment, and then at
every spread and every inline fragment of the document.  A condition has to name a
composite type, and a spread has to name a fragment.  Where the scope of a spread or
an inline fragment is known to be composite as well, some object has to be of both
types.

Every definition and every selection has one fault at most: what is wrong with a
condition leaves no type to compare with the scope.

## Main Definitions

* `Schema.ConditionFault`, `Schema.Impossible`: what is wrong with a condition, by
  itself and in a scope
* `FragmentSite`, `Document.FragmentFault`: what is wrong with a definition or a
  selection

## Main Statements

* `conditionFindings_eq_nil_or`: a faulty condition is not compared
* `validate_reports_conditions_and_spreads`: which conditions and spreads are reported
-/

namespace GraphQLStatics

/-! ### Conditions -/

namespace Schema

/-- The violation reports that the name is not that of a composite type. -/
inductive ConditionFault (schema : Schema) (name : String) (place : Place) : Violation → Prop
  | unknown (isType : schema.type? name = none) :
      ConditionFault schema name place (.conditionUnknown name place)
  | notComposite {t : TypeDef} (isType : schema.type? name = some t)
      (notComposite : t.isComposite = false) :
      ConditionFault schema name place (.conditionNotComposite name place)

/-- The violation reports that the scope and the type of the condition are composite
and that no object is of both types. -/
inductive Impossible (schema : Schema) (fragment : Option String) (condition : String)
    (place : Place) : Option TypeDef → Violation → Prop
  | apart {scope t : TypeDef} (isType : schema.type? condition = some t)
      (isScope : scope.isComposite = true) (isComposite : t.isComposite = true)
      (apart : schema.overlap scope t = false) :
      Impossible schema fragment condition place (some scope)
        (.spreadNotPossible fragment scope.name t.name place)

end Schema

variable {schema : Schema} {doc : Document} {v : Violation}

theorem mem_conditionFindings {position : Position} {name : String} :
    v ∈ conditionFindings schema doc position name ↔
      schema.ConditionFault name (doc.place position) v := by
  constructor
  · intro mem
    unfold conditionFindings at mem
    split at mem
    · next isType =>
        cases List.mem_singleton.mp mem
        exact .unknown isType
    · next t isType =>
        split at mem
        · cases mem
        · next notComposite =>
            cases List.mem_singleton.mp mem
            exact .notComposite isType (Bool.not_eq_true _ ▸ notComposite)
  · intro fault
    cases fault with
    | unknown isType => simp [conditionFindings, isType]
    | notComposite isType notComposite => simp [conditionFindings, isType, notComposite]

theorem mem_possibleFindings {position : Position} {fragment : Option String}
    {scope : Option TypeDef} {name : String} :
    v ∈ possibleFindings schema doc position fragment scope (schema.type? name) ↔
      schema.Impossible fragment name (doc.place position) scope v := by
  constructor
  · intro mem
    unfold possibleFindings at mem
    split at mem
    · next scope t isType =>
        split at mem
        · next impossible =>
            simp only [Bool.and_eq_true, Bool.not_eq_true'] at impossible
            cases List.mem_singleton.mp mem
            exact .apart isType impossible.1.1 impossible.1.2 impossible.2
        · cases mem
    · cases mem
  · intro fault
    cases fault with
    | apart isType isScope isComposite apart =>
        simp [possibleFindings, isType, isScope, isComposite, apart]

theorem length_conditionFindings (schema : Schema) (doc : Document) (position : Position)
    (name : String) : (conditionFindings schema doc position name).length ≤ 1 := by
  unfold conditionFindings
  repeat' split
  all_goals simp

theorem length_possibleFindings (schema : Schema) (doc : Document) (position : Position)
    (fragment : Option String) (scope condition : Option TypeDef) :
    (possibleFindings schema doc position fragment scope condition).length ≤ 1 := by
  unfold possibleFindings
  repeat' split
  all_goals simp

/-- A condition that has a fault by itself is not compared with the scope. -/
theorem conditionFindings_eq_nil_or (schema : Schema) (doc : Document) (position : Position)
    (fragment : Option String) (scope : Option TypeDef) (name : String) :
    conditionFindings schema doc position name = [] ∨
      possibleFindings schema doc position fragment scope (schema.type? name) = [] := by
  refine or_iff_not_imp_left.mpr fun faulty => List.eq_nil_iff_forall_not_mem.mpr fun v mem => ?_
  obtain ⟨fault, faultMem⟩ := List.exists_mem_of_ne_nil _ faulty
  have isFault := mem_conditionFindings.mp faultMem
  cases mem_possibleFindings.mp mem with
  | apart isType isScope isComposite apart =>
      cases isFault with
      | unknown isType' => cases isType'.symm.trans isType
      | notComposite isType' notComposite =>
          cases Option.some.inj (isType'.symm.trans isType)
          cases notComposite.symm.trans isComposite

/-! ### Sites -/

/-- A fragment by its index among the fragments of a document, or a selection. -/
inductive FragmentSite where
  | definition (index : Nat)
  | selection (site : SelectionSite)
  deriving DecidableEq, Repr

/-- Definitions come before selections. -/
inductive FragmentSite.Before : FragmentSite → FragmentSite → Prop
  | definitions {i j : Nat} (less : i < j) : Before (.definition i) (.definition j)
  | kinds (i : Nat) (site : SelectionSite) : Before (.definition i) (.selection site)
  | selections {site site' : SelectionSite} (isBefore : site.Before site') :
      Before (.selection site) (.selection site')

theorem FragmentSite.Before.irrefl (site : FragmentSite) : ¬ site.Before site := by
  intro isBefore
  cases isBefore with
  | definitions less => exact Nat.lt_irrefl _ less
  | selections isBefore => exact SelectionSite.Before.irrefl _ isBefore

namespace Document

/-- The violation reports the condition of a fragment or of an inline fragment, or that
an inline fragment or a spread is not possible in its scope, or that a spread names no
fragment.  Of several fragments with a name, the last one is spread. -/
inductive FragmentFault (schema : Schema) (doc : Document) : FragmentSite → Violation → Prop
  | definition {i : Nat} {frag : Fragment} {v : Violation}
      (defined : doc.fragments[i]? = some frag)
      (fault : schema.ConditionFault frag.condition (doc.place frag.position) v) :
      FragmentFault schema doc (.definition i) v
  | inlineCondition {site : SelectionSite} {f : InlineUse} {sub : SelectionSet}
      {scope : Option TypeDef} {name : String} {v : Violation}
      (stands : doc.Stands schema site (.inline f sub) scope) (named : f.condition = some name)
      (fault : schema.ConditionFault name (doc.place f.position) v) :
      FragmentFault schema doc (.selection site) v
  | inlineImpossible {site : SelectionSite} {f : InlineUse} {sub : SelectionSet}
      {scope : Option TypeDef} {name : String} {v : Violation}
      (stands : doc.Stands schema site (.inline f sub) scope) (named : f.condition = some name)
      (impossible : schema.Impossible none name (doc.place f.position) scope v) :
      FragmentFault schema doc (.selection site) v
  | spreadUndefined {site : SelectionSite} {f : SpreadUse} {scope : Option TypeDef}
      (stands : doc.Stands schema site (.spread f) scope)
      (undefined : ∀ frag ∈ doc.fragments, frag.name ≠ f.fragment) :
      FragmentFault schema doc (.selection site)
        (.spreadTargetUndefined f.fragment (doc.place f.position))
  | spreadImpossible {site : SelectionSite} {f : SpreadUse} {scope : Option TypeDef}
      {frag : Fragment} {v : Violation} (stands : doc.Stands schema site (.spread f) scope)
      (defined : doc.lastFragment? f.fragment = some frag)
      (impossible :
        schema.Impossible (some f.fragment) frag.condition (doc.place f.position) scope v) :
      FragmentFault schema doc (.selection site) v

theorem fragmentFault_definition_iff {i : Nat} :
    doc.FragmentFault schema (.definition i) v ↔
      ∃ frag, doc.fragments[i]? = some frag ∧
        v ∈ conditionFindings schema doc frag.position frag.condition := by
  constructor
  · rintro ⟨defined, fault⟩
    exact ⟨_, defined, mem_conditionFindings.mpr fault⟩
  · rintro ⟨frag, defined, mem⟩
    exact .definition defined (mem_conditionFindings.mp mem)

theorem fragmentFault_selection_iff {site : SelectionSite} :
    doc.FragmentFault schema (.selection site) v ↔
      ∃ visit, doc.visitAt? schema site = some visit ∧
        v ∈ visitFragmentFindings schema doc visit := by
  constructor
  · intro fault
    cases fault with
    | inlineCondition stands named fault =>
        refine ⟨_, stands_iff.mp stands, ?_⟩
        simp only [visitFragmentFindings, named]
        exact List.mem_append_left _ (mem_conditionFindings.mpr fault)
    | inlineImpossible stands named impossible =>
        refine ⟨_, stands_iff.mp stands, ?_⟩
        simp only [visitFragmentFindings, named]
        exact List.mem_append_right _ (mem_possibleFindings.mpr impossible)
    | spreadUndefined stands undefined =>
        refine ⟨_, stands_iff.mp stands, ?_⟩
        simp only [visitFragmentFindings, lastFragment?_eq_none_iff.mpr undefined]
        exact List.mem_singleton_self _
    | spreadImpossible stands defined impossible =>
        refine ⟨_, stands_iff.mp stands, ?_⟩
        simp only [visitFragmentFindings, defined]
        exact mem_possibleFindings.mpr impossible
  · rintro ⟨⟨selection, scope⟩, atSite, mem⟩
    have stands := stands_iff.mpr atSite
    cases selection with
    | field f sub => cases mem
    | spread f =>
        cases defined : doc.lastFragment? f.fragment with
        | none =>
            simp only [visitFragmentFindings, defined] at mem
            cases List.mem_singleton.mp mem
            exact .spreadUndefined stands (lastFragment?_eq_none_iff.mp defined)
        | some frag =>
            simp only [visitFragmentFindings, defined] at mem
            exact .spreadImpossible stands defined (mem_possibleFindings.mp mem)
    | inline f sub =>
        cases named : f.condition with
        | none =>
            simp only [visitFragmentFindings, named] at mem
            cases mem
        | some name =>
            simp only [visitFragmentFindings, named] at mem
            rcases List.mem_append.mp mem with mem | mem
            · exact .inlineCondition stands named (mem_conditionFindings.mp mem)
            · exact .inlineImpossible stands named (mem_possibleFindings.mp mem)

/-- A selection is reported once at most. -/
theorem length_visitFragmentFindings (schema : Schema) (doc : Document) (visit : Visit) :
    (visitFragmentFindings schema doc visit).length ≤ 1 := by
  obtain ⟨selection, scope⟩ := visit
  cases selection with
  | field f sub => exact Nat.zero_le 1
  | spread f =>
      simp only [visitFragmentFindings]
      split
      · exact Nat.le_refl 1
      · exact length_possibleFindings schema doc _ _ _ _
  | inline f sub =>
      simp only [visitFragmentFindings]
      split
      · exact Nat.zero_le 1
      · next name named =>
          rcases conditionFindings_eq_nil_or schema doc f.position none scope name with
            noFault | notCompared
          · rw [noFault]
            exact length_possibleFindings schema doc _ _ _ _
          · rw [notCompared, List.append_nil]
            exact length_conditionFindings schema doc _ _

end Document

/-- **Type conditions and spreads are reported** wherever they have a fault, one report for
each, fragments before selections and otherwise in the order of the document. -/
theorem validate_reports_conditions_and_spreads (capacity : Nat) (schema : Schema)
    (doc : Document) :
    ReportsIn FragmentSite.Before (doc.FragmentFault schema)
      (((Validator.ofConfig ⟨capacity, [.fragmentsAreValid]⟩).validate schema doc).1.filter
        (·.fragmentPart? = some .selections)) := by
  have conditions := (EnumeratesIn.getElem? doc.fragments).reportsIn_flatMap Nat.lt_irrefl
    fun frag => length_conditionFindings schema doc frag.position frag.condition
  have selections := (doc.enumeratesIn_walk schema).reportsIn_flatMap
    SelectionSite.Before.irrefl (doc.length_visitFragmentFindings schema)
  rw [Validator.validate_single]
  change ReportsIn _ _ ((fragmentFindings schema doc).filter _)
  rw [filter_fragmentFindings]
  refine (conditions.congr fun i v => Document.fragmentFault_definition_iff.symm).append
    (selections.congr fun site v => Document.fragmentFault_selection_iff.symm)
    FragmentSite.Before.irrefl (fun i j => .definitions) (fun site site' => .selections)
    .kinds ?_
  rintro (i | site)
  · exact .inl ⟨i, rfl⟩
  · exact .inr ⟨site, rfl⟩

end GraphQLStatics
