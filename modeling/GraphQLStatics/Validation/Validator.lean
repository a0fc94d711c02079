import GraphQLStatics.Validation.Directives
import GraphQLStatics.Validation.Fields
import GraphQLStatics.Validation.Fragments
import GraphQLStatics.Validation.Variables

/-!
# Validators

A validator checks documents by an ordered list of rules.  Each check is done
in a workspace that is taken from a pool and given back to it.

## Main Definitions

* `Rule.run`: what a rule does to a workspace
* `Pool`, `Pool.acquire`, `Pool.release`
* `ValidatorConfig`, `Validator`, `Validator.validate`
* `ValidatorBuilder`, `ValidatorBuilder.build`: validators call by call
-/

namespace GraphQLStatics

/-- Check a document by a rule. -/
def Rule.run (rule : Rule) (schema : Schema) (doc : Document) (w : Workspace) : Workspace :=
  match rule with
  | .directivesAreValid => checkDirectives schema doc w
  | .executableDefinitions => checkExecutable doc w
  | .fieldMustBeDefined => checkFields schema doc w
  | .fragmentsAreValid => checkFragments schema doc w
  | .allVariablesUsed => checkVariablesUsed schema doc w
  | .allVariableUsagesAreAllowed => checkUsagesAllowed schema doc w
  | .variableUniqueAndInputType => checkVariableTypes schema doc w

/-! ### Pools -/

/-- Workspaces that wait for use, the next one first.  No more than `capacity`
are kept. -/
structure Pool where
  capacity : Nat
  idle : List Workspace

namespace Pool

/-- A pool that is filled with fresh workspaces. -/
def filled (capacity : Nat) : Pool where
  capacity
  idle := List.replicate capacity .fresh

/-- Take a workspace: the one that was given back last, or a fresh one if none
waits. -/
def acquire (pool : Pool) : Workspace × Pool :=
  match pool.idle with
  | [] => (.fresh, pool)
  | w :: rest => (w, { pool with idle := rest })

/-- Give a workspace back, which resets it.  It is dropped if enough of them
wait. -/
def release (pool : Pool) (w : Workspace) : Pool :=
  if pool.idle.length < pool.capacity then { pool with idle := w.reset :: pool.idle }
  else pool

end Pool

/-! ### Validators -/

/-- What a validator is made from. -/
structure ValidatorConfig where
  poolCapacity : Nat
  rules : List Rule
  deriving DecidableEq, Repr

/-- Eight workspaces and every rule. -/
def ValidatorConfig.standard : ValidatorConfig where
  poolCapacity := 8
  rules := Rule.standard

/-- Checks documents by its rules, in order. -/
structure Validator where
  pool : Pool
  rules : List Rule

namespace Validator

/-- The validator of a configuration. -/
def ofConfig (config : ValidatorConfig) : Validator where
  pool := .filled config.poolCapacity
  rules := config.rules

/-- The validator of the standard configuration. -/
def standard : Validator :=
  ofConfig .standard

/-- Check a document by rules in order, each of which begins with cleared
scratch. -/
def runRules (schema : Schema) (doc : Document) (rules : List Rule) (w : Workspace) :
    Workspace :=
  rules.foldl (fun w rule => rule.run schema doc w.clearScratch) w

/-- Check a document: the violations found, in the order of the rules, and the
validator with its workspace given back. -/
def validate (v : Validator) (schema : Schema) (doc : Document) :
    List Violation × Validator :=
  let (w, pool) := v.pool.acquire
  let w := runRules schema doc v.rules (w.bindTo doc)
  (w.violations, { v with pool := pool.release { w with violations := [] } })

end Validator

/-! ### Builders -/

/-- A validator in the making. -/
structure ValidatorBuilder where
  poolCapacity : Nat
  rules : List Rule
  deriving DecidableEq, Repr

namespace ValidatorBuilder

/-- Eight workspaces and no rule yet. -/
def new : ValidatorBuilder where
  poolCapacity := ValidatorConfig.standard.poolCapacity
  rules := []

/-- Have another number of workspaces. -/
def withPoolCapacity (b : ValidatorBuilder) (poolCapacity : Nat) : ValidatorBuilder :=
  { b with poolCapacity }

/-- Have more rules after those so far. -/
def addRules (b : ValidatorBuilder) (rules : List Rule) : ValidatorBuilder :=
  { b with rules := b.rules ++ rules }

/-- Have one more rule. -/
def addRule (b : ValidatorBuilder) (rule : Rule) : ValidatorBuilder :=
  b.addRules [rule]

/-- Have every rule, in the standard order, after those so far. -/
def addStandardRules (b : ValidatorBuilder) : ValidatorBuilder :=
  b.addRules Rule.standard

/-- The configuration that has come about. -/
def config (b : ValidatorBuilder) : ValidatorConfig :=
  ⟨b.poolCapacity, b.rules⟩

/-- The validator that has come about. -/
def build (b : ValidatorBuilder) : Validator :=
  .ofConfig b.config

end ValidatorBuilder

end GraphQLStatics
