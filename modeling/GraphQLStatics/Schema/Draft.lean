import GraphQLStatics.Grammar.TypeSystem
import GraphQLStatics.Schema.Basic
import GraphQLStatics.Schema.Failure

/-!
# Building schemas

A `Draft` takes in definitions of the type system, from any number of texts.
Extensions are kept until the schema is built, so that they may come before
the type that they extend.

## Main Definitions

* `Draft`, `Draft.empty`
* `Draft.add`, `Draft.takeIn`: take in one definition, or those of a text
* `Draft.load`, `Draft.loadFile`, `Draft.loadFiles`: take in a text or files
* `Draft.build`: the schema
-/

namespace GraphQLStatics

/-- A root type as a root block names it, with the place of the block. -/
structure RootClaim where
  typeName : String
  place : Place
  deriving DecidableEq, Repr

/-- A schema under construction. -/
structure Draft where
  types : OrderedMap TypeDef
  directives : OrderedMap DirectiveDef
  query : Option RootClaim
  mutation : Option RootClaim
  subscription : Option RootClaim
  /-- The extensions with the paths of their files, in the order of loading. -/
  extensions : List (String × TypeDefinition)
  /-- How many texts without a path were loaded, modulo `2 ^ 16`. -/
  unnamedTexts : UInt16

namespace Draft

/-- The draft that has nothing but the built-in scalars. -/
def empty : Draft where
  types := .ofList (BuiltInScalar.all.map fun s => (s.name, .builtIn s))
  directives := .empty
  query := none
  mutation := none
  subscription := none
  extensions := []
  unnamedTexts := 0

/-! ### Taking in definitions -/

/-- The root type claimed for a kind of operation. -/
def claim (d : Draft) : OperationKind → Option RootClaim
  | .query => d.query
  | .mutation => d.mutation
  | .subscription => d.subscription

/-- The draft with a root type claimed for a kind of operation. -/
def setClaim (d : Draft) (kind : OperationKind) (claim : RootClaim) : Draft :=
  match kind with
  | .query => { d with query := some claim }
  | .mutation => { d with mutation := some claim }
  | .subscription => { d with subscription := some claim }

/-- Take in what a root block says about a kind of operation. -/
def addRoot (block : RootBlock) (place : Place) (d : Draft) (kind : OperationKind) :
    Except SchemaFailure Draft :=
  match block.root kind with
  | none => .ok d
  | some typeName =>
    match d.claim kind with
    | some existing => .error (.duplicateRoot kind existing.place place)
    | none => .ok (d.setClaim kind ⟨typeName, place⟩)

/-- Take in a root block. -/
def addRoots (d : Draft) (path : String) (block : RootBlock) : Except SchemaFailure Draft :=
  [OperationKind.query, .mutation, .subscription].foldlM
    (addRoot block ⟨some path, block.position⟩) d

/-- Take in a type. -/
def addType (d : Draft) (path : String) (definition : TypeDefinition) :
    Except SchemaFailure Draft :=
  let t := TypeDef.ofDefinition path definition
  match d.types.find? definition.name with
  | some existing => .error (.duplicateType definition.name existing.origin t.origin)
  | none => .ok { d with types := d.types.insert definition.name t }

/-- Take in a directive. -/
def addDirective (d : Draft) (path : String) (definition : DirectiveDefinition) :
    Except SchemaFailure Draft :=
  let place : Place := ⟨some path, definition.position⟩
  if DirectiveDef.isBuiltInName definition.name then
    .error (.builtInDirective definition.name place)
  else match d.directives.find? definition.name with
    | some existing => .error (.duplicateDirective definition.name existing.origin place)
    | none =>
      .ok { d with
        directives := d.directives.insert definition.name
          (.ofDefinition path definition) }

/-- Take in a definition of the file `path`. -/
def add (d : Draft) (path : String) : TypeSystemDefinition → Except SchemaFailure Draft
  | .roots block => d.addRoots path block
  | .type definition => d.addType path definition
  | .extension definition => .ok { d with extensions := d.extensions ++ [(path, definition)] }
  | .directive definition => d.addDirective path definition

/-- Take in definitions of the file `path`, in order. -/
def addAll (d : Draft) (path : String) (definitions : List TypeSystemDefinition) :
    Except SchemaFailure Draft :=
  definitions.foldlM (fun d definition => d.add path definition) d

/-- The path of a text without one: texts are numbered from zero. -/
def unnamedPath (n : UInt16) : String :=
  "str://" ++ toString n.toNat

/-- The path under which the next text is loaded, and the draft that has
counted it. -/
def nextPath (d : Draft) : Option String → String × Draft
  | some path => (path, d)
  | none => (unnamedPath d.unnamedTexts, { d with unnamedTexts := d.unnamedTexts + 1 })

/-- Take in the definitions of a text, which may come from a file. -/
def takeIn (d : Draft) (path : Option String) (definitions : List TypeSystemDefinition) :
    Except SchemaFailure Draft :=
  (d.nextPath path).2.addAll (d.nextPath path).1 definitions

/-- Take in a text, which may come from a file. -/
def load (d : Draft) (path : Option String) (text : String) : Except SchemaFailure Draft :=
  match Grammar.readTypeSystem text.toList with
  | .error position => .error (.malformed (d.nextPath path).1 position)
  | .ok definitions => d.takeIn path definitions

/-- Take in a file. -/
def loadFile (d : Draft) (file : SourceFile) : Except SchemaFailure Draft :=
  match file.text with
  | .error cause => .error (.unreadable cause)
  | .ok text => d.load (some file.path) text

/-- Take in files, in order. -/
def loadFiles (d : Draft) (files : List SourceFile) : Except SchemaFailure Draft :=
  files.foldlM loadFile d

/-! ### Building the schema -/

/-- Apply an extension to the types. -/
def applyExtension (types : OrderedMap TypeDef) (ext : String × TypeDefinition) :
    Except SchemaFailure (OrderedMap TypeDef) :=
  let (path, definition) := ext
  let place : Place := ⟨some path, definition.position⟩
  match types.find? definition.name with
  | none => .error (.extensionOfUndefined definition.name place)
  | some t =>
    let mismatch : SchemaFailure :=
      .extensionOfOtherKind definition.name place t.kind definition.body.kind
    match t with
    | .builtIn _ => .error mismatch
    | .defined name origin content =>
      match content.extend? path definition.body with
      | none => .error mismatch
      | some content => .ok (types.insert definition.name (.defined name origin content))

/-- Whether a name belongs to an object type. -/
def hasObject (types : OrderedMap TypeDef) (name : String) : Bool :=
  (types.find? name).any TypeDef.isObject

/-- The root type for a kind of operation: the one claimed, which has to be an
object, or else the object of the given name. -/
def resolveRoot (types : OrderedMap TypeDef) (kind : OperationKind) (standard : String) :
    Option RootClaim → Except SchemaFailure (Option String)
  | some claim =>
    if hasObject types claim.typeName then .ok (some claim.typeName)
    else .error (.rootNotAnObject kind claim.typeName claim.place)
  | none => .ok (if hasObject types standard then some standard else none)

/-- The directives of the schema: those defined, and then the built-in ones. -/
def allDirectives (d : Draft) : OrderedMap DirectiveDef :=
  DirectiveDef.builtIns.foldl
    (fun m directive =>
      if m.contains directive.name then m else m.insert directive.name directive)
    d.directives

/-- The schema of a draft. -/
def build (d : Draft) : Except SchemaFailure Schema := do
  let types ← d.extensions.foldlM applyExtension d.types
  match ← resolveRoot types .query "Query" d.query with
  | none => throw .noQueryRoot
  | some query =>
    let mutation ← resolveRoot types .mutation "Mutation" d.mutation
    let subscription ← resolveRoot types .subscription "Subscription" d.subscription
    return { types, directives := d.allDirectives, query, mutation, subscription }

end Draft

end GraphQLStatics
