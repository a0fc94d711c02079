import Mathlib.Data.List.Basic

/-!
# Results in view of earlier elements

Checks along a list often compare an element with those before it.
`withEarlier` gathers the results of such a check.

A check can also stop at the first fault that it finds.  `Meets` says so of a
computation without mention of its steps: it fails with the first of a list of
faults, and it succeeds if there are none.  Computations that are run one after
another meet the concatenation of their faults, so that what a long computation
fails with is read off from what its parts fail with.

## Main Definitions

* `withEarlier`: results that depend on the earlier elements of a list
* `Meets`: a computation that fails with the first of some faults

## Main Statements

* `mem_withEarlier`: where a result stems from
* `flatMap_eq_map_filter`: one result for some of the elements
* `Meets.bind`, `Meets.foldlM`: computations one after another
-/

namespace GraphQLStatics

/-! ### Results that depend on earlier elements -/

/-- The results at the elements of a list, each of which may depend on the
elements before it. -/
def withEarlier {α β : Type} (result : List α → α → List β) : List α → List α → List β
  | _, [] => []
  | earlier, x :: rest => result earlier x ++ withEarlier result (earlier ++ [x]) rest

/-- Every result stems from an element and those before it. -/
theorem mem_withEarlier {α β : Type} {result : List α → α → List β} {earlier l : List α}
    {b : β} :
    b ∈ withEarlier result earlier l ↔
      ∃ front x back, l = front ++ x :: back ∧ b ∈ result (earlier ++ front) x := by
  induction l generalizing earlier with
  | nil => simp [withEarlier]
  | cons y rest ih =>
      rw [withEarlier, List.mem_append, ih]
      constructor
      · rintro (now | ⟨front, x, back, rfl, later⟩)
        · exact ⟨[], y, rest, rfl, by simpa using now⟩
        · exact ⟨y :: front, x, back, rfl, by simpa using later⟩
      · rintro ⟨front, x, back, split, mem⟩
        cases front with
        | nil =>
            obtain ⟨rfl, rfl⟩ := List.cons.inj split
            exact Or.inl (by simpa using mem)
        | cons z front =>
            obtain ⟨rfl, rfl⟩ := List.cons.inj split
            exact Or.inr ⟨front, x, back, rfl, by simpa using mem⟩

/-- The results at the last element come last. -/
theorem withEarlier_concat {α β : Type} (result : List α → α → List β) (earlier l : List α)
    (x : α) :
    withEarlier result earlier (l ++ [x]) =
      withEarlier result earlier l ++ result (earlier ++ l) x := by
  induction l generalizing earlier with
  | nil => simp [withEarlier]
  | cons y rest ih =>
      rw [List.cons_append, withEarlier, withEarlier, ih, List.append_assoc, List.append_assoc,
        List.singleton_append]

/-- Results that do not depend on earlier elements. -/
theorem withEarlier_const {α β : Type} (result : α → List β) (earlier l : List α) :
    withEarlier (fun _ => result) earlier l = l.flatMap result := by
  induction l generalizing earlier with
  | nil => rfl
  | cons x rest ih => rw [withEarlier, ih, List.flatMap_cons]

/-- One result for each element that passes a test. -/
theorem flatMap_eq_map_filter {α β : Type} {result : α → List β} {P : α → Prop}
    [DecidablePred P] {one : α → β} (each : ∀ x, result x = if P x then [one x] else [])
    (l : List α) : l.flatMap result = (l.filter P).map one := by
  induction l with
  | nil => rfl
  | cons x rest ih =>
      rw [List.flatMap_cons, each, ih]
      by_cases passes : P x
      · simp [passes]
      · simp [passes]

/-! ### Computations that fail with the first fault -/

/-- The computation fails with the first of the faults.  If there are none, it
has a result, and `P` holds of the result. -/
def Meets {ε α : Type} (faults : List ε) (P : α → Prop) : Except ε α → Prop
  | .error fault => faults.head? = some fault
  | .ok a => faults = [] ∧ P a

namespace Meets

variable {ε α β : Type} {faults : List ε} {P : α → Prop} {r : Except ε α}

/-- A computation succeeds if and only if there are no faults. -/
theorem exists_ok_iff (h : Meets faults P r) : (∃ a, r = .ok a) ↔ faults = [] := by
  cases r with
  | error fault =>
      constructor
      · rintro ⟨a, ok⟩
        cases ok
      · intro none
        rw [Meets, none, List.head?_nil] at h
        cases h
  | ok a => exact ⟨fun _ => h.1, fun _ => ⟨a, rfl⟩⟩

/-- A computation fails with the first fault, and with no other. -/
theorem eq_error_iff (h : Meets faults P r) (fault : ε) :
    r = .error fault ↔ faults.head? = some fault := by
  cases r with
  | error first =>
      rw [show faults.head? = some first from h, Except.error.injEq, Option.some.injEq]
  | ok a =>
      rw [h.1, List.head?_nil]
      constructor
      · intro error
        cases error
      · intro none
        cases none

theorem of_ok (h : Meets faults P r) {a : α} (ok : r = .ok a) : P a := by
  rw [ok] at h
  exact h.2

/-- What holds of every result of a computation. -/
theorem imp {Q : α → Prop} (h : Meets faults P r) (weaken : ∀ a, P a → Q a) :
    Meets faults Q r := by
  cases r with
  | error fault => exact h
  | ok a => exact ⟨h.1, weaken a h.2⟩

/-- Of two computations one after another, the second one's faults come after
those of the first. -/
theorem bind {more : List ε} {Q : β → Prop} {next : α → Except ε β} (h : Meets faults P r)
    (continues : ∀ a, P a → Meets more Q (next a)) : Meets (faults ++ more) Q (r >>= next) := by
  cases r with
  | error fault =>
      show (faults ++ more).head? = some fault
      rw [List.head?_append, show faults.head? = some fault from h]
      rfl
  | ok a =>
      show Meets (faults ++ more) Q (next a)
      rw [h.1, List.nil_append]
      exact continues a h.2

/-- A computation along a list, where `Inv` says what holds after a part of the
list. -/
theorem foldlM {step : β → α → Except ε β} (found : List α → α → List ε)
    (Inv : List α → β → Prop) {l : List α}
    (steps : ∀ front x back b, l = front ++ x :: back → Inv front b →
      Meets (found front x) (Inv (front ++ [x])) (step b x))
    {b : β} (start : Inv [] b) :
    Meets (withEarlier found [] l) (Inv l) (l.foldlM step b) := by
  suffices onward : ∀ front rest b, l = front ++ rest → Inv front b →
      Meets (withEarlier found front rest) (Inv l) (rest.foldlM step b) from
    onward [] l b rfl start
  intro front rest
  induction rest generalizing front with
  | nil =>
      intro b split inv
      rw [List.append_nil] at split
      exact ⟨rfl, split ▸ inv⟩
  | cons x rest ih =>
      intro b split inv
      rw [List.foldlM_cons, withEarlier]
      refine (steps front x rest b split inv).bind fun b' inv' => ?_
      refine ih (front ++ [x]) b' ?_ inv'
      rw [split, List.append_assoc, List.singleton_append]

end Meets

end GraphQLStatics
