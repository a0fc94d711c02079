import Mathlib.Control.Basic
import Mathlib.Data.List.Forall2
import GraphQLStatics.Schema.Draft

/-!
# What a schema is built from

A schema is built from texts that are loaded one after another.  Of a text that
was read only its path and its definitions matter, so a sequence of loads amounts
to a list of definitions with paths: the *sources* of the schema.

A draft puts extensions aside, and nothing that it does with other definitions
depends on what was put aside.  Therefore building takes in the definitions
first and the extensions afterwards, wherever these were loaded.

## Main Definitions

* `Load`, `Source`, `sourcesOf`
* `definitionsOf`, `extensionsOf`: the two kinds of source
* `Schema.ofLoads`: load and build

## Main Statements

* `Schema.foldlM_load_build`: texts amount to loads
* `foldlM_addSource_aside`: definitions and extensions do not interfere
* `Schema.ofLoads_eq`: definitions first, extensions afterwards
-/

namespace GraphQLStatics

/-! ### Loads and sources -/

/-- The definitions of a text that was read, and the text's path if it has
one. -/
structure Load where
  path : Option String
  definitions : List TypeSystemDefinition

/-- A definition of the type system with the path of its text. -/
structure Source where
  path : String
  definition : TypeSystemDefinition

namespace Load

/-- The path of a load, where `n` texts without a path came before. -/
def pathAfter (n : UInt16) (load : Load) : String :=
  load.path.getD (Draft.unnamedPath n)

/-- The number of texts without a path after a load, where `n` came before. -/
def countAfter (n : UInt16) (load : Load) : UInt16 :=
  if load.path.isSome then n else n + 1

/-- The definitions of a load with its path, where `n` texts without a path came
before. -/
def sourcesAfter (n : UInt16) (load : Load) : List Source :=
  load.definitions.map (⟨load.pathAfter n, ·⟩)

end Load

/-- The definitions of loads with their paths, in order, where `n` texts without
a path came before. -/
def sourcesAfter : UInt16 → List Load → List Source
  | _, [] => []
  | n, load :: rest => load.sourcesAfter n ++ sourcesAfter (load.countAfter n) rest

/-- The definitions of loads with their paths, in order. -/
def sourcesOf (loads : List Load) : List Source :=
  sourcesAfter 0 loads

namespace Source

/-- The extension of a type that a source is, with its path. -/
def extension? (s : Source) : Option (String × TypeDefinition) :=
  match s.definition with
  | .extension definition => some (s.path, definition)
  | _ => none

/-- Whether a source is an extension. -/
def isExtension (s : Source) : Bool :=
  s.extension?.isSome

end Source

/-- The extensions among the sources, in order. -/
def extensionsOf (sources : List Source) : List (String × TypeDefinition) :=
  sources.filterMap Source.extension?

/-- The sources other than extensions, in order. -/
def definitionsOf (sources : List Source) : List Source :=
  sources.filter (!·.isExtension)

/-- The schema that comes of loads, which are taken in one after another. -/
def Schema.ofLoads (loads : List Load) : Except SchemaFailure Schema := do
  let d ← loads.foldlM (fun d load => d.takeIn load.path load.definitions) Draft.empty
  d.build

/-- The text is one with the definitions and the path of the load. -/
def Load.IsRead (load : Load) (text : Option String × String) : Prop :=
  text.1 = load.path ∧ Grammar.readTypeSystem text.2.toList = .ok load.definitions

/-- Texts that can be read are taken in as loads. -/
theorem Schema.foldlM_load_build {loads : List Load} {texts : List (Option String × String)}
    (read : List.Forall₂ Load.IsRead loads texts) :
    (texts.foldlM (fun d text => d.load text.1 text.2) Draft.empty >>= Draft.build) =
      Schema.ofLoads loads := by
  rw [Schema.ofLoads]
  generalize Draft.empty = d
  induction read generalizing d with
  | nil => rfl
  | @cons load text loads texts isRead _ ih =>
      have step : d.load text.1 text.2 = d.takeIn load.path load.definitions := by
        rw [Draft.load, isRead.2, isRead.1]
      rw [List.foldlM_cons, List.foldlM_cons, step, bind_assoc, bind_assoc]
      exact bind_congr ih

/-! ### What is put aside -/

/-- A step that commutes with a change of the state does so along a list. -/
theorem foldlM_commutes {α β ε : Type} {step : β → α → Except ε β} {change : β → β}
    (commutes : ∀ b a, step (change b) a = change <$> step b a) (l : List α) (b : β) :
    l.foldlM step (change b) = change <$> l.foldlM step b := by
  induction l generalizing b with
  | nil => rfl
  | cons a rest ih =>
      rw [List.foldlM_cons, List.foldlM_cons, commutes, bind_map_left, map_bind]
      exact bind_congr fun b' => ih b'

namespace Draft

/-- The draft with the given extensions and the given number of texts without a
path. -/
def aside (d : Draft) (extensions : List (String × TypeDefinition)) (n : UInt16) : Draft :=
  { d with extensions, unnamedTexts := n }

/-- Take in a source. -/
def addSource (d : Draft) (s : Source) : Except SchemaFailure Draft :=
  d.add s.path s.definition

variable (d : Draft) (extensions : List (String × TypeDefinition)) (n : UInt16)

theorem addRoot_aside (block : RootBlock) (place : Place) (kind : OperationKind) :
    addRoot block place (d.aside extensions n) kind =
      (·.aside extensions n) <$> addRoot block place d kind := by
  have sameClaim : (d.aside extensions n).claim kind = d.claim kind := by
    cases kind <;> rfl
  unfold addRoot
  rw [sameClaim]
  cases block.root kind with
  | none => rfl
  | some typeName =>
      cases d.claim kind with
      | some existing => rfl
      | none => cases kind <;> rfl

theorem addType_aside (path : String) (definition : TypeDefinition) :
    (d.aside extensions n).addType path definition =
      (·.aside extensions n) <$> d.addType path definition := by
  have sameTypes : (d.aside extensions n).types = d.types := rfl
  unfold addType
  rw [sameTypes]
  cases d.types.find? definition.name with
  | some existing => rfl
  | none => rfl

theorem addDirective_aside (path : String) (definition : DirectiveDefinition) :
    (d.aside extensions n).addDirective path definition =
      (·.aside extensions n) <$> d.addDirective path definition := by
  have sameDirectives : (d.aside extensions n).directives = d.directives := rfl
  unfold addDirective
  rw [sameDirectives]
  cases DirectiveDef.isBuiltInName definition.name with
  | true => rfl
  | false =>
      cases d.directives.find? definition.name with
      | some existing => rfl
      | none => rfl

/-- Taking in a definition neither reads nor changes what is put aside. -/
theorem addSource_aside_of_definition {s : Source} (isDefinition : s.isExtension = false) :
    (d.aside extensions n).addSource s = (·.aside extensions n) <$> d.addSource s := by
  obtain ⟨path, definition⟩ := s
  cases definition with
  | roots block =>
      exact foldlM_commutes (fun d kind => addRoot_aside d extensions n block _ kind) _ d
  | type definition => exact addType_aside d extensions n path definition
  | directive definition => exact addDirective_aside d extensions n path definition
  | extension definition => exact absurd isDefinition.symm Bool.false_ne_true

/-- **Definitions and extensions do not interfere.**  Taking in sources takes in
the definitions among them, and puts the extensions aside. -/
theorem foldlM_addSource_aside (sources : List Source) :
    sources.foldlM addSource (d.aside extensions n) =
      (·.aside (extensions ++ extensionsOf sources) n) <$>
        (definitionsOf sources).foldlM addSource d := by
  induction sources generalizing d extensions with
  | nil =>
      show Except.ok _ = Except.ok _
      rw [extensionsOf, List.filterMap_nil, List.append_nil]
  | cons s rest ih =>
      rw [List.foldlM_cons]
      cases found : s.extension? with
      | none =>
          have isDefinition : s.isExtension = false := by rw [Source.isExtension, found]; rfl
          have extensionsEq : extensionsOf (s :: rest) = extensionsOf rest :=
            List.filterMap_cons_none found
          have definitionsEq : definitionsOf (s :: rest) = s :: definitionsOf rest := by
            rw [definitionsOf, List.filter_cons_of_pos (by rw [isDefinition]; rfl)]
            rfl
          rw [addSource_aside_of_definition d extensions n isDefinition, extensionsEq,
            definitionsEq, List.foldlM_cons, bind_map_left, map_bind]
          exact bind_congr fun d' => ih d' extensions
      | some ext =>
          have isExtension : s.isExtension = true := by rw [Source.isExtension, found]; rfl
          have extensionsEq : extensionsOf (s :: rest) = ext :: extensionsOf rest :=
            List.filterMap_cons_some found
          have definitionsEq : definitionsOf (s :: rest) = definitionsOf rest :=
            List.filter_cons_of_neg (by rw [isExtension]; exact Bool.false_ne_true)
          have putAside : (d.aside extensions n).addSource s =
              .ok (d.aside (extensions ++ [ext]) n) := by
            obtain ⟨path, definition⟩ := s
            cases definition with
            | extension definition => cases found; rfl
            | roots block => cases found
            | type definition => cases found
            | directive definition => cases found
          rw [putAside, extensionsEq, definitionsEq]
          show rest.foldlM addSource (d.aside (extensions ++ [ext]) n) = _
          rw [ih d (extensions ++ [ext]), List.append_assoc]
          rfl

/-! ### Loads -/

theorem takeIn_eq (load : Load) :
    (d.aside extensions n).takeIn load.path load.definitions =
      (load.sourcesAfter n).foldlM addSource (d.aside extensions (load.countAfter n)) := by
  obtain ⟨path, definitions⟩ := load
  rw [Load.sourcesAfter, List.foldlM_map]
  cases path with
  | none => rfl
  | some path => rfl

/-- The texts without a path are counted only to name them, so that the schema
depends on the sources alone. -/
theorem foldlM_takeIn_build (loads : List Load) :
    (loads.foldlM (fun d load => d.takeIn load.path load.definitions)
        (d.aside extensions n) >>= build) =
      (definitionsOf (sourcesAfter n loads)).foldlM addSource d >>= fun d =>
        (d.aside (extensions ++ extensionsOf (sourcesAfter n loads)) 0).build := by
  induction loads generalizing d extensions n with
  | nil =>
      show (d.aside extensions n).build = (d.aside (extensions ++ []) 0).build
      rw [List.append_nil]
      rfl
  | cons load rest ih =>
      have definitionsEq : definitionsOf (sourcesAfter n (load :: rest)) =
          definitionsOf (load.sourcesAfter n) ++
            definitionsOf (sourcesAfter (load.countAfter n) rest) :=
        List.filter_append ..
      have extensionsEq : extensionsOf (sourcesAfter n (load :: rest)) =
          extensionsOf (load.sourcesAfter n) ++
            extensionsOf (sourcesAfter (load.countAfter n) rest) :=
        List.filterMap_append
      rw [List.foldlM_cons, takeIn_eq, foldlM_addSource_aside, bind_map_left, bind_assoc,
        definitionsEq, extensionsEq, List.foldlM_append, bind_assoc]
      refine bind_congr fun d' => ?_
      rw [ih d', List.append_assoc]

end Draft

/-- **Definitions first, extensions afterwards.**  Whatever the order of the
loads, the schema is that of the definitions, to which the extensions are then
applied. -/
theorem Schema.ofLoads_eq (loads : List Load) :
    Schema.ofLoads loads =
      (definitionsOf (sourcesOf loads)).foldlM Draft.addSource Draft.empty >>= fun d =>
        (d.aside (extensionsOf (sourcesOf loads)) 0).build :=
  Draft.foldlM_takeIn_build Draft.empty [] 0 loads

end GraphQLStatics
