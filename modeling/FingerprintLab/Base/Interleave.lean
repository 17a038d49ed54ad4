import Mathlib.Tactic.Common
import Mathlib.Data.List.Basic

/-!
# Interleavings of atomic actions on one store

Threads are lists of pending actions on a shared store; a schedule names, turn by turn, the thread
that performs its next action.  Every interleaving is one schedule, and a schedule may stop early.

* `next_cases`     what one turn can do;
* `run_inv`        a property that every admitted turn preserves holds after the run;
* `run_store`      the store is that of the actions performed;
* `Turns`          a condition on every turn of a run.
-/

set_option linter.unusedSectionVars false
set_option linter.unusedVariables false

namespace Interleave

structure Thread (T A : Type*) where
  owner : T
  todo : List A

structure Config (S T A : Type*) where
  store : S
  threads : List (Thread T A)

section
variable {S T A : Type*} (act : S → A → S)

/-- thread `i` performs its next action; without one nothing happens -/
def next (c : Config S T A) (i : Nat) : Config S T A :=
  match c.threads[i]? with
  | some ⟨t, a :: rest⟩ => ⟨act c.store a, c.threads.set i ⟨t, rest⟩⟩
  | _ => c

def run (c : Config S T A) (sched : List Nat) : Config S T A := sched.foldl (next act) c

/-- every thread has performed all its actions -/
def Config.Done (c : Config S T A) : Prop := ∀ th ∈ c.threads, th.todo = []

/-- `P` holds before every turn of the run -/
def Turns (P : Config S T A → Nat → Prop) : Config S T A → List Nat → Prop
  | _, [] => True
  | c, i :: is => P c i ∧ Turns P (next act c i) is

instance (P : Config S T A → Nat → Prop) [h : ∀ c i, Decidable (P c i)] :
    ∀ c sched, Decidable (Turns act P c sched)
  | _, [] => isTrue trivial
  | c, i :: is =>
    have : Decidable (Turns act P (next act c i) is) := instDecidableTurns P (next act c i) is
    inferInstanceAs (Decidable (P c i ∧ Turns act P (next act c i) is))

/-- one turn: nothing, or the head action of a thread -/
theorem next_cases (c : Config S T A) (i : Nat) :
    next act c i = c ∨ ∃ t a rest, c.threads[i]? = some ⟨t, a :: rest⟩ ∧
      next act c i = ⟨act c.store a, c.threads.set i ⟨t, rest⟩⟩ := by
  rcases h : c.threads[i]? with _ | ⟨t, _ | ⟨a, rest⟩⟩
  · left; unfold next; rw [h]
  · left; unfold next; rw [h]
  · right
    refine ⟨t, a, rest, rfl, ?_⟩
    unfold next
    rw [h]

theorem run_cons (c : Config S T A) (i : Nat) (is : List Nat) :
    run act c (i :: is) = run act (next act c i) is := rfl

/-- the invariant rule -/
theorem run_inv (P : Config S T A → Nat → Prop) (I : Config S T A → Prop)
    (step : ∀ c i, P c i → I c → I (next act c i)) (c : Config S T A) (sched : List Nat)
    (hP : Turns act P c sched) (h : I c) : I (run act c sched) := by
  induction sched generalizing c with
  | nil => exact h
  | cons i is ih => exact ih (next act c i) hP.2 (step c i hP.1 h)

/-- a property that every turn preserves -/
theorem run_always (I : Config S T A → Prop) (step : ∀ c i, I c → I (next act c i))
    (c : Config S T A) (sched : List Nat) (h : I c) : I (run act c sched) := by
  induction sched generalizing c with
  | nil => exact h
  | cons i is ih => exact ih (next act c i) (step c i h)

/-- The store of a run is that of the actions performed, each of them some thread's. -/
theorem run_store (c : Config S T A) (sched : List Nat) :
    ∃ as : List A, (run act c sched).store = as.foldl act c.store ∧
      ∀ a ∈ as, ∃ th ∈ c.threads, a ∈ th.todo := by
  induction sched generalizing c with
  | nil => exact ⟨[], rfl, fun a h => absurd h List.not_mem_nil⟩
  | cons i is ih =>
    obtain ⟨as, hstore, hmem⟩ := ih (next act c i)
    rw [run_cons]
    rcases next_cases act c i with he | ⟨t, a, rest, hi, he⟩
    · rw [he] at hstore hmem ⊢
      exact ⟨as, hstore, hmem⟩
    · rw [he] at hstore hmem ⊢
      have hth : (⟨t, a :: rest⟩ : Thread T A) ∈ c.threads := List.mem_of_getElem? hi
      refine ⟨a :: as, hstore, fun b hb => ?_⟩
      rcases List.mem_cons.mp hb with rfl | hb
      · exact ⟨_, hth, List.mem_cons_self⟩
      obtain ⟨th, hmoved, hbth⟩ := hmem b hb
      rcases (List.mem_or_eq_of_mem_set hmoved).symm with rfl | hold
      · exact ⟨_, hth, List.mem_cons_of_mem a hbth⟩
      · exact ⟨th, hold, hbth⟩

/-- the threads of a turn that did something: the one that moved, and the others -/
theorem mem_set_cases (l : List (Thread T A)) (i : Nat) (x th : Thread T A)
    (h : th ∈ l.set i x) : th = x ∨ th ∈ l :=
  (List.mem_or_eq_of_mem_set h).symm

/-- a thread that is not the moving one stays as it is -/
theorem mem_set_of_ne (l : List (Thread T A)) (i : Nat) (x y th : Thread T A)
    (hi : l[i]? = some y) (hth : th ∈ l) (hne : th ≠ y) : th ∈ l.set i x := by
  obtain ⟨j, hj, rfl⟩ := List.mem_iff_getElem.mp hth
  have hij : i ≠ j := by
    rintro rfl
    rw [List.getElem?_eq_getElem hj] at hi
    exact hne (Option.some.inj hi)
  rw [← List.getElem_set_ne hij (a := x) (by rw [List.length_set]; exact hj)]
  exact List.getElem_mem _

theorem mem_set_self (l : List (Thread T A)) (i : Nat) (x y : Thread T A)
    (hi : l[i]? = some y) : x ∈ l.set i x := by
  have hlt : i < l.length := (List.getElem?_eq_some_iff.mp hi).1
  exact List.mem_set hlt x

/-- no thread changes its owner -/
theorem run_owners (c : Config S T A) (sched : List Nat) :
    (run act c sched).threads.map Thread.owner = c.threads.map Thread.owner := by
  induction sched generalizing c with
  | nil => rfl
  | cons i is ih =>
    rw [run_cons, ih]
    rcases next_cases act c i with h | ⟨t, a, rest, hi, h⟩
    · rw [h]
    · rw [h]
      obtain ⟨hlt, hget⟩ := List.getElem?_eq_some_iff.mp hi
      have hlt' : i < (c.threads.map Thread.owner).length := by rw [List.length_map]; exact hlt
      have ht : t = (c.threads.map Thread.owner)[i] := by rw [List.getElem_map, hget]
      show (c.threads.set i ⟨t, rest⟩).map Thread.owner = _
      rw [List.map_set]
      show (c.threads.map Thread.owner).set i t = _
      rw [ht, List.set_getElem_self]

end

end Interleave
