import GraphQLStatics.Proofs.Findings
import GraphQLStatics.Validation.Session

/-!
# Workspaces carry nothing over

A validator uses its workspaces again and again, and gives them out to be
written to.  None of this shows in a check: a workspace is reset when it is
given back, so whatever waits in the pool is clean, and a check in a clean
workspace gives what the rules find in the document.

## Main Definitions

* `Pool.Clean`: what waits in the pool holds nothing from an earlier use
* `Session.Isolated`: the rules are as given, and the pool is clean

## Main Statements

* `Validator.validate_of_clean`: a check that begins with a clean pool
* `Session.Isolated.run`: no sequence of actions makes the pool unclean
* `outcome_validate_eq_fresh`: a check within a session gives what a new
  validator gives
-/

namespace GraphQLStatics

/-! ### Clean workspaces -/

namespace Workspace

theorem isClean_fresh : fresh.isClean = true :=
  rfl

theorem isClean_reset (w : Workspace) : w.reset.isClean = true :=
  rfl

theorem violations_eq_nil_of_isClean {w : Workspace} (clean : w.isClean = true) :
    w.violations = [] := by
  simp only [isClean, Bool.and_eq_true, List.isEmpty_iff] at clean
  exact clean.1.1.1.1.1

end Workspace

/-! ### Clean pools -/

namespace Pool

/-- Every workspace that waits in the pool is clean. -/
def Clean (pool : Pool) : Prop :=
  ∀ w ∈ pool.idle, w.isClean = true

theorem clean_filled (capacity : Nat) : (filled capacity).Clean := by
  intro w mem
  rw [List.eq_of_mem_replicate mem]
  exact Workspace.isClean_fresh

/-- From a clean pool comes a clean workspace, and the pool stays clean. -/
theorem Clean.acquire {pool : Pool} (clean : pool.Clean) :
    pool.acquire.1.isClean = true ∧ pool.acquire.2.Clean := by
  unfold Pool.acquire
  split
  · exact ⟨Workspace.isClean_fresh, clean⟩
  · next w rest idle =>
      refine ⟨clean w (by simp [idle]), ?_⟩
      intro other mem
      exact clean other (by simp [idle, mem])

/-- Whatever is given back, the pool stays clean. -/
theorem Clean.release {pool : Pool} (clean : pool.Clean) (w : Workspace) :
    (pool.release w).Clean := by
  unfold Pool.release
  split
  · intro other mem
    rcases List.mem_cons.mp mem with rfl | old
    · exact w.isClean_reset
    · exact clean other old
  · exact clean

end Pool

namespace Validator

/-- A check that begins with a clean pool gives what the rules find, and leaves
the pool clean. -/
theorem validate_of_clean {v : Validator} (clean : v.pool.Clean) (schema : Schema)
    (doc : Document) :
    (v.validate schema doc).1 = (v.rules.flatMap fun rule => rule.found schema doc) ∧
      (v.validate schema doc).2.pool.Clean := by
  obtain ⟨taken, left⟩ := clean.acquire
  refine ⟨?_, left.release _⟩
  exact runRules_bindTo_violations schema doc v.rules
    (Workspace.violations_eq_nil_of_isClean taken)

/-- A validator that was just made from a configuration gives what its rules
find. -/
theorem validate_ofConfig (config : ValidatorConfig) (schema : Schema) (doc : Document) :
    ((ofConfig config).validate schema doc).1 =
      config.rules.flatMap fun rule => rule.found schema doc :=
  (validate_of_clean (v := ofConfig config) (Pool.clean_filled _) schema doc).1

/-- A new validator with a single rule gives what this rule finds. -/
theorem validate_single (capacity : Nat) (rule : Rule) (schema : Schema) (doc : Document) :
    ((ofConfig ⟨capacity, [rule]⟩).validate schema doc).1 = rule.found schema doc := by
  rw [validate_ofConfig]
  exact List.flatMap_singleton _ rule

end Validator

/-! ### Sessions -/

namespace Session

/-- The validator of the session has the rules that it began with, and its pool
is clean.  About the workspaces that are held outside the pool nothing is
said. -/
structure Isolated (rules : List Rule) (s : Session) : Prop where
  rules : s.validator.rules = rules
  clean : s.validator.pool.Clean

theorem isolated_start (config : ValidatorConfig) :
    (start (Validator.ofConfig config)).Isolated config.rules :=
  ⟨rfl, Pool.clean_filled _⟩

/-- Every action keeps the pool clean. -/
theorem Isolated.step {rules : List Rule} {s : Session} (isolated : s.Isolated rules)
    (action : Action) : (s.step action).2.Isolated rules := by
  obtain ⟨sameRules, clean⟩ := isolated
  cases action with
  | validate schema doc =>
      exact ⟨sameRules, (Validator.validate_of_clean clean schema doc).2⟩
  | take slot onLoan =>
      simp only [Session.step]
      cases s.holding? slot with
      | some h => exact ⟨sameRules, clean⟩
      | none => exact ⟨sameRules, clean.acquire.2⟩
  | giveBack slot =>
      simp only [Session.step]
      cases s.holding? slot with
      | some h => exact ⟨sameRules, clean.release h.workspace⟩
      | none => exact ⟨sameRules, clean⟩
  | write slot doc violations =>
      -- What is written to is held outside the pool.
      simp only [Session.step]
      cases s.holding? slot with
      | some h => exact ⟨sameRules, clean⟩
      | none => exact ⟨sameRules, clean⟩

/-- Every sequence of actions keeps the pool clean. -/
theorem Isolated.run {rules : List Rule} {s : Session} (isolated : s.Isolated rules)
    (actions : List Action) : (s.run actions).2.Isolated rules := by
  induction actions generalizing s with
  | nil => exact isolated
  | cons action rest ih => exact ih (isolated.step action)

/-- A check in the session gives what the rules find. -/
theorem Isolated.step_validate {rules : List Rule} {s : Session} (isolated : s.Isolated rules)
    (schema : Schema) (doc : Document) :
    (s.step (.validate schema doc)).1 =
      .validated (rules.flatMap fun rule => rule.found schema doc) := by
  have found := (Validator.validate_of_clean isolated.clean schema doc).1
  rw [isolated.rules] at found
  exact congrArg Outcome.validated found

/-- The outcome of an action is what the action does after those before it. -/
theorem outcome_run_append (s : Session) (before : List Action) (action : Action)
    (after : List Action) :
    (s.run (before ++ action :: after)).1[before.length]? =
      some ((s.run before).2.step action).1 := by
  induction before generalizing s with
  | nil => rfl
  | cons first rest ih => exact ih (s.step first).2

end Session

/-- **No cross-contamination through the pool.**  Whatever was done before in
the session of a validator, and whatever is done afterwards, a check gives what
a new validator with the same rules gives for the same schema and document. -/
theorem outcome_validate_eq_fresh (config : ValidatorConfig)
    (before after : List Session.Action) (schema : Schema) (doc : Document) (capacity : Nat) :
    ((Session.start (Validator.ofConfig config)).run
        (before ++ .validate schema doc :: after)).1[before.length]? =
      some (.validated
        ((Validator.ofConfig ⟨capacity, config.rules⟩).validate schema doc).1) := by
  have isolated := (Session.isolated_start config).run before
  rw [Session.outcome_run_append, isolated.step_validate, Validator.validate_ofConfig]

end GraphQLStatics
