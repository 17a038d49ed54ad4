import Mathlib.Logic.Function.Iterate

/-!
# Loops that test a condition

`for cond(s) { s = body(s) }` on a state: `EndsAfter n s` says that from `s` the loop makes `n` turns
and then stops.

* `ends_of_measure`     a body that lessens a measure makes the loop end, in as many turns at most;
* `whileFuel_eq`        the loop computed with enough fuel is where it ends.
-/

set_option linter.unusedVariables false

namespace Loops

section
variable {α : Type} (cond : α → Bool) (body : α → α)

/-- the condition fails after `n` turns, and not before -/
def EndsAfter (n : Nat) (s : α) : Prop :=
  cond (body^[n] s) = false ∧ ∀ k, k < n → cond (body^[k] s) = true

theorem endsAfter_zero {s : α} (h : cond s = false) : EndsAfter cond body 0 s :=
  ⟨h, fun k hk => absurd hk (Nat.not_lt_zero k)⟩

theorem endsAfter_succ {n : Nat} {s : α} (h : cond s = true) (hn : EndsAfter cond body n (body s)) :
    EndsAfter cond body (n + 1) s := by
  refine ⟨hn.1, fun k hk => ?_⟩
  cases k with
  | zero => exact h
  | succ k => exact hn.2 k (Nat.lt_of_succ_lt_succ hk)

theorem ends_of_measure (m : α → Nat) (hm : ∀ s, cond s = true → m (body s) < m s) (s : α) :
    ∃ n, n ≤ m s ∧ EndsAfter cond body n s := by
  induction h : m s using Nat.strongRecOn generalizing s with
  | ind k ih =>
    cases hc : cond s with
    | false => exact ⟨0, Nat.zero_le k, endsAfter_zero cond body hc⟩
    | true =>
      have hlt := hm s hc
      obtain ⟨n, hn, hend⟩ := ih (m (body s)) (h ▸ hlt) (body s) rfl
      exact ⟨n + 1, by omega, endsAfter_succ cond body hc hend⟩

/-- the loop with at most as many turns as the fuel -/
def whileFuel : Nat → α → α
  | 0, s => s
  | fuel + 1, s => if cond s then whileFuel fuel (body s) else s

theorem whileFuel_eq {n fuel : Nat} {s : α} (h : EndsAfter cond body n s) (hf : n ≤ fuel) :
    whileFuel cond body fuel s = body^[n] s := by
  induction fuel generalizing n s with
  | zero =>
    rw [Nat.le_zero.mp hf]
    rfl
  | succ fuel ih =>
    rw [whileFuel]
    cases n with
    | zero =>
      have hstop : cond s = false := h.1
      rw [hstop]
      rfl
    | succ n =>
      have hgo : cond s = true := h.2 0 (Nat.succ_pos n)
      rw [if_pos hgo]
      refine ih ⟨h.1, fun k hk => ?_⟩ (Nat.le_of_succ_le_succ hf)
      exact h.2 (k + 1) (Nat.succ_lt_succ hk)

end

end Loops
