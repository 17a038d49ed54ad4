import Mathlib.Tactic.Common
import Mathlib.Data.List.Basic

/-!
# Runs of a step function with disabled actions

A step function gives the state after an action, or nothing when the action is not possible in the
state.  A run is a list of actions.

* `exec`          the state after a run;
* `Along`         a condition on every action of a run and the state before it;
* `exec_inv`      a property that every admitted action preserves holds after the run;
* `along_of_inv`  a condition that the invariant implies holds along the run;
* `exec_at`       an action of a run, with the state before it and the rest of the run;
* `exists_bad`    the first action of a run that breaks the condition.
-/

set_option linter.unusedSectionVars false
set_option linter.unusedVariables false

namespace Runs

section
variable {S A : Type*} (step : S → A → Option S)

/-- the state after the actions, when each of them was possible -/
def exec : S → List A → Option S
  | s, [] => some s
  | s, a :: as =>
    match step s a with
    | some s' => exec s' as
    | none => none

/-- `P` holds of every action of the run in the state before it -/
def Along (P : S → A → Prop) : S → List A → Prop
  | _, [] => True
  | s, a :: as => P s a ∧
    match step s a with
    | some s' => Along P s' as
    | none => True

instance decidableAlong (P : S → A → Prop) [h : ∀ s a, Decidable (P s a)] :
    ∀ s as, Decidable (Along step P s as)
  | _, [] => isTrue trivial
  | s, a :: as =>
    have : Decidable (match step s a with
        | some s' => Along step P s' as
        | none => True) :=
      match step s a with
      | some s' => decidableAlong P s' as
      | none => isTrue trivial
    inferInstanceAs (Decidable (P s a ∧ _))

theorem exec_cons {s s' : S} {a : A} (h : step s a = some s') (as : List A) :
    exec step s (a :: as) = exec step s' as := by
  rw [exec, h]

theorem exec_cons_eq_some {s t : S} {a : A} {as : List A} :
    exec step s (a :: as) = some t ↔ ∃ s', step s a = some s' ∧ exec step s' as = some t := by
  rw [exec]
  cases h : step s a with
  | none => exact ⟨fun h => absurd h (by simp), fun ⟨s', hs, _⟩ => absurd hs (by simp)⟩
  | some s' =>
    constructor
    · intro he
      exact ⟨s', rfl, he⟩
    · rintro ⟨u, hu, he⟩
      rw [Option.some.inj hu]
      exact he

theorem along_cons (P : S → A → Prop) {s s' : S} {a : A} (h : step s a = some s') (as : List A) :
    Along step P s (a :: as) ↔ P s a ∧ Along step P s' as := by
  rw [Along, h]

/-- the invariant rule -/
theorem exec_inv (P : S → A → Prop) (I : S → Prop)
    (hstep : ∀ s a s', P s a → step s a = some s' → I s → I s') {s t : S} {as : List A}
    (hP : Along step P s as) (h : exec step s as = some t) (hs : I s) : I t := by
  induction as generalizing s with
  | nil =>
    rw [← Option.some.inj h]
    exact hs
  | cons a as ih =>
    obtain ⟨s', hs', h'⟩ := (exec_cons_eq_some step).mp h
    obtain ⟨hp, hrest⟩ := (along_cons step P hs' as).mp hP
    exact ih hrest h' (hstep s a s' hp hs' hs)

/-- a property that every action preserves -/
theorem exec_always (I : S → Prop) (hstep : ∀ s a s', step s a = some s' → I s → I s') {s t : S}
    {as : List A} (h : exec step s as = some t) (hs : I s) : I t := by
  induction as generalizing s with
  | nil =>
    rw [← Option.some.inj h]
    exact hs
  | cons a as ih =>
    obtain ⟨s', hs', h'⟩ := (exec_cons_eq_some step).mp h
    exact ih h' (hstep s a s' hs' hs)

/-- a condition that holds in every state of the invariant, along a run that keeps it -/
theorem along_of_inv (P Q : S → A → Prop) (I : S → Prop)
    (hstep : ∀ s a s', P s a → step s a = some s' → I s → I s') (hQ : ∀ s a, P s a → I s → Q s a)
    {s : S} {as : List A} (hP : Along step P s as) (hs : I s) : Along step Q s as := by
  induction as generalizing s with
  | nil => exact trivial
  | cons a as ih =>
    obtain ⟨hp, hrest⟩ := hP
    refine ⟨hQ s a hp hs, ?_⟩
    cases h : step s a with
    | none => exact trivial
    | some s' =>
      rw [h] at hrest
      exact ih hrest (hstep s a s' hp h hs)

/-- an action of a run happens in some state of it, and the rest of the run goes on from there -/
theorem exec_at (P : S → A → Prop) {s t : S} {as : List A} (h : exec step s as = some t)
    (hP : Along step P s as) {a : A} (ha : a ∈ as) : ∃ s₁ s₂ rest, P s₁ a ∧ step s₁ a = some s₂ ∧
      exec step s₂ rest = some t ∧ Along step P s₂ rest := by
  induction as generalizing s with
  | nil => exact absurd ha List.not_mem_nil
  | cons b as ih =>
    obtain ⟨s', hs', h'⟩ := (exec_cons_eq_some step).mp h
    obtain ⟨hp, hrest⟩ := (along_cons step P hs' as).mp hP
    obtain rfl | ha := List.mem_cons.mp ha
    · exact ⟨s, s', as, hp, hs', h', hrest⟩
    · exact ih h' hrest ha

/-- a run that breaks the condition breaks it at some action -/
theorem exists_bad (P : S → A → Prop) {s t : S} {as : List A} (h : exec step s as = some t)
    (hbad : ¬ Along step P s as) :
    ∃ before a after s₁ s₂, as = before ++ a :: after ∧ exec step s before = some s₁ ∧
      ¬ P s₁ a ∧ step s₁ a = some s₂ ∧ exec step s₂ after = some t := by
  induction as generalizing s with
  | nil => exact absurd trivial hbad
  | cons a as ih =>
    obtain ⟨s', hs', h'⟩ := (exec_cons_eq_some step).mp h
    by_cases hp : P s a
    · have hrest : ¬ Along step P s' as := fun hr =>
        hbad ((along_cons step P hs' as).mpr ⟨hp, hr⟩)
      obtain ⟨before, b, after, s₁, s₂, he, h1, hb, h2, h3⟩ := ih h' hrest
      refine ⟨a :: before, b, after, s₁, s₂, by rw [he]; rfl, ?_, hb, h2, h3⟩
      rw [exec_cons step hs']
      exact h1
    · exact ⟨[], a, as, s, s', rfl, rfl, hp, hs', h'⟩

end

end Runs
