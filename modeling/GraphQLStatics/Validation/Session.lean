import GraphQLStatics.Validation.Validator

/-!
# Sessions

A session is the use of one validator over time.  Besides checking documents,
workspaces can be taken from the validator's pool, held in named slots, written
to and given back.

## Main Definitions

* `Holding`, `Session`
* `Session.Action`, `Session.Outcome`, `Session.step`
* `Session.run`: the outcomes of a sequence of actions
* `Session.close`: give back what is on loan
-/

namespace GraphQLStatics

/-- A workspace that is held outside the pool.  One on loan goes back to the
pool by itself when the session ends. -/
structure Holding where
  slot : String
  workspace : Workspace
  onLoan : Bool

/-- A validator and the workspaces that were taken from its pool. -/
structure Session where
  validator : Validator
  holdings : List Holding

namespace Session

/-- What can be done in a session. -/
inductive Action where
  | validate (schema : Schema) (doc : Document)
  /-- Take a workspace, on loan or not. -/
  | take (slot : String) (onLoan : Bool)
  | giveBack (slot : String)
  /-- Bind a held workspace to a document and report violations in it. -/
  | write (slot : String) (doc : Document) (violations : List Violation)

/-- What comes of an action. -/
inductive Outcome where
  | validated (violations : List Violation)
  | holding (workspace : Workspace)
  | givenBack
  | slotTaken
  | noSuchSlot

/-- The session of a validator before anything is done. -/
def start (validator : Validator) : Session := ⟨validator, []⟩

/-- The workspaces that wait in the pool. -/
def idle (s : Session) : List Workspace :=
  s.validator.pool.idle

/-- What is held in a slot. -/
def holding? (s : Session) (slot : String) : Option Holding :=
  s.holdings.find? (·.slot = slot)

/-- The session with another pool. -/
def withPool (s : Session) (pool : Pool) : Session :=
  { s with validator := { s.validator with pool } }

/-- Do one thing. -/
def step (s : Session) : Action → Outcome × Session
  | .validate schema doc =>
    let (violations, validator) := s.validator.validate schema doc
    (.validated violations, { s with validator })
  | .take slot onLoan =>
    match s.holding? slot with
    | some _ => (.slotTaken, s)
    | none =>
      let (workspace, pool) := s.validator.pool.acquire
      (.holding workspace,
        { s.withPool pool with holdings := s.holdings ++ [⟨slot, workspace, onLoan⟩] })
  | .giveBack slot =>
    match s.holding? slot with
    | none => (.noSuchSlot, s)
    | some h =>
      (.givenBack,
        { s.withPool (s.validator.pool.release h.workspace) with
          holdings := s.holdings.filter (·.slot ≠ slot) })
  | .write slot doc violations =>
    match s.holding? slot with
    | none => (.noSuchSlot, s)
    | some h =>
      let workspace := violations.foldl Workspace.report (h.workspace.bindTo doc)
      (.holding workspace,
        { s with
          holdings := s.holdings.map fun other =>
            if other.slot = slot then { other with workspace } else other })

/-- Do one thing after another. -/
def run (s : Session) : List Action → List Outcome × Session
  | [] => ([], s)
  | action :: rest =>
    let (outcome, s) := s.step action
    let (outcomes, s) := s.run rest
    (outcome :: outcomes, s)

/-- End the session: workspaces on loan go back to the pool, and the others are
lost. -/
def close (s : Session) : Session :=
  let onLoan := s.holdings.filter (·.onLoan)
  let pool := onLoan.foldl (fun pool h => pool.release h.workspace) s.validator.pool
  { s.withPool pool with holdings := [] }

end Session

end GraphQLStatics
