import GraphQLStatics.Validation.Traversal

/-!
# Directives and definitions

Two rules that need no scopes: every directive is defined, stands where it may
stand and is not repeated unless it may be; and every definition can be
executed.

## Main Definitions

* `checkDirectives`
* `checkExecutable`
-/

namespace GraphQLStatics

/-- Check a directive at a location.  The directives met before in the same
list are the workspace's names. -/
def checkDirective (schema : Schema) (doc : Document) (location : DirectiveLocation)
    (w : Workspace) (d : DirectiveUse) : Workspace :=
  let place := doc.place d.position
  match schema.directive? d.name with
  | none => w.report (.directiveNotSupported d.name place)
  | some directive =>
    let w :=
      if directive.validIn location then w
      else w.report (.directiveMisplaced d.name location place)
    if directive.repeatable then w
    else if w.hasName d.name then w.report (.directiveNotUnique d.name place)
    else w.addName d.name

/-- Check the directives of one element. -/
def checkDirectiveSite (schema : Schema) (doc : Document) (w : Workspace)
    (site : DirectiveSite) : Workspace :=
  site.directives.foldl (checkDirective schema doc site.location) w.clearNames

/-- Check the directives of a document. -/
def checkDirectives (schema : Schema) (doc : Document) (w : Workspace) : Workspace :=
  doc.directiveSites.foldl (checkDirectiveSite schema doc) w

/-- Check that a definition can be executed. -/
def checkDefinition (doc : Document) (w : Workspace) (definition : Definition) : Workspace :=
  if definition.isExecutable then w
  else w.report (.notExecutable (doc.place definition.position))

/-- Check that a document can be executed. -/
def checkExecutable (doc : Document) (w : Workspace) : Workspace :=
  doc.definitions.foldl (checkDefinition doc) w

end GraphQLStatics
