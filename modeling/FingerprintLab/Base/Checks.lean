import Mathlib.Data.List.Basic
import Mathlib.Tactic.Common

/-!
# Checks that report

A script that runs all its checks and collects a message for each one that fails; it may also stop in
the middle, with nothing.

* `assertTrue`       one check;
* `collectM`         a loop of checks;
* `collectM_nil`     the loop reports nothing exactly if no turn does;
* `seq_nil`          so do two parts one after the other;
* `scan`             the loop that remembers the keys that it has seen;
* `scan_nil`         it reports nothing exactly if the keys are distinct and no turn reports anything.
-/

set_option linter.unusedVariables false

namespace Checks

section
variable {X M K : Type*}

def assertTrue (cond : Bool) (msg : M) : List M := if cond then [] else [msg]

@[simp] theorem assertTrue_nil {cond : Bool} {msg : M} : assertTrue cond msg = [] ↔ cond = true := by
  cases cond <;> simp [assertTrue]

def collectM (f : X → Option (List M)) : List X → Option (List M)
  | [] => some []
  | x :: xs => do
    let ms ← f x
    let rest ← collectM f xs
    return ms ++ rest

/-- two parts of a script -/
def seq (a b : Option (List M)) : Option (List M) := do
  let ms ← a
  let rest ← b
  return ms ++ rest

@[simp] theorem seq_nil {a b : Option (List M)} : seq a b = some [] ↔ a = some [] ∧ b = some [] := by
  cases a <;> cases b <;> simp [seq]

theorem collectM_nil {f : X → Option (List M)} {xs : List X} :
    collectM f xs = some [] ↔ ∀ x ∈ xs, f x = some [] := by
  induction xs with
  | nil => exact iff_of_true rfl fun x hx => absurd hx List.not_mem_nil
  | cons x xs ih =>
    show seq (f x) (collectM f xs) = some [] ↔ _
    rw [seq_nil, ih, List.forall_mem_cons]

/-- The loop that remembers what it has seen: a turn gets the last element before it with its key. -/
def scan [DecidableEq K] (key : X → K) (turn : Option X → X → Option (List M)) :
    List X → List X → Option (List M)
  | _, [] => some []
  | seen, x :: xs => do
    let ms ← turn (seen.find? fun y => key y = key x) x
    let rest ← scan key turn (x :: seen) xs
    return ms ++ rest

/-- a loop that complains about a key that it has seen -/
theorem scan_nil [DecidableEq K] {key : X → K} {turn : Option X → X → Option (List M)}
    (hturn : ∀ y x, turn (some y) x ≠ some []) {seen xs : List X} :
    scan key turn seen xs = some [] ↔ (xs.map key).Nodup ∧
      (∀ x ∈ xs, ∀ y ∈ seen, key y ≠ key x) ∧ ∀ x ∈ xs, turn none x = some [] := by
  induction xs generalizing seen with
  | nil => simp [scan]
  | cons x xs ih =>
    show seq (turn (seen.find? fun y => key y = key x) x) (scan key turn (x :: seen) xs) = some [] ↔ _
    rw [seq_nil, ih, List.map_cons, List.nodup_cons]
    have hfirst : turn (seen.find? fun y => key y = key x) x = some [] ↔
        (∀ y ∈ seen, key y ≠ key x) ∧ turn none x = some [] := by
      cases hf : seen.find? fun y => key y = key x with
      | none =>
        rw [List.find?_eq_none] at hf
        exact ⟨fun h => ⟨fun y hy he => hf y hy (decide_eq_true he), h⟩, fun h => h.2⟩
      | some y =>
        have hy := List.find?_some hf
        exact iff_of_false (hturn y x) fun h =>
          h.1 y (List.mem_of_find?_eq_some hf) (of_decide_eq_true hy)
    rw [hfirst]
    constructor
    · rintro ⟨⟨hseen, hx⟩, hnd, hrest, hxs⟩
      refine ⟨⟨fun hm => ?_, hnd⟩, fun z hz y hy => ?_, fun z hz => ?_⟩
      · obtain ⟨z, hz, hzx⟩ := List.mem_map.mp hm
        exact hrest z hz x List.mem_cons_self hzx.symm
      · rcases List.mem_cons.mp hz with rfl | hz
        · exact hseen y hy
        · exact hrest z hz y (List.mem_cons_of_mem x hy)
      · rcases List.mem_cons.mp hz with rfl | hz
        · exact hx
        · exact hxs z hz
    · rintro ⟨⟨hx, hnd⟩, hseen, hall⟩
      refine ⟨⟨fun y hy => hseen x List.mem_cons_self y hy, hall x List.mem_cons_self⟩, hnd,
        fun z hz y hy => ?_, fun z hz => hall z (List.mem_cons_of_mem x hz)⟩
      rcases List.mem_cons.mp hy with rfl | hy
      · exact fun he => hx (List.mem_map.mpr ⟨z, hz, he.symm⟩)
      · exact hseen z (List.mem_cons_of_mem x hz) y hy

end

end Checks
