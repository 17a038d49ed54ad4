import Mathlib.Data.Finmap
import Mathlib.Data.List.Induction
import Mathlib.Tactic.Common

/-!
# Maps filled by a list of writes

`writeAll m ws` makes the writes `ws` one after the other.  When no key is written with two values
(`Functional`) a written key has its value wherever the write stands in the list, and a key that is
not written keeps its own; so the result does not depend on the order (`writeAll_congr`).  In general
the value comes from the `Last` element that writes the key.

`assignAll obj ws` makes the same writes into a list of members that keeps its order.  A lookup finds
what it finds in the map (`lookup_assignAll`), and new members stand in the order of their writes.
-/

set_option linter.unusedSectionVars false
set_option linter.unusedVariables false

namespace Writes

section
variable {K V : Type} [DecidableEq K]

def writeAll (m : Finmap fun _ : K => V) (ws : List (K × V)) : Finmap fun _ : K => V :=
  ws.foldl (fun m w => m.insert w.1 w.2) m

theorem writeAll_cons (m : Finmap fun _ : K => V) (w : K × V) (ws : List (K × V)) :
    writeAll m (w :: ws) = writeAll (m.insert w.1 w.2) ws := rfl

theorem writeAll_append (m : Finmap fun _ : K => V) (ws ws' : List (K × V)) :
    writeAll m (ws ++ ws') = writeAll (writeAll m ws) ws' := List.foldl_append ..

theorem lookup_writeAll_of_notMem (m : Finmap fun _ : K => V) (ws : List (K × V)) (k : K)
    (h : k ∉ ws.map Prod.fst) : (writeAll m ws).lookup k = m.lookup k := by
  induction ws generalizing m with
  | nil => rfl
  | cons w ws ih =>
    rw [List.map_cons, List.mem_cons, not_or] at h
    rw [writeAll_cons, ih _ h.2, Finmap.lookup_insert_of_ne _ h.1]

/-- no key is written with two values -/
def Functional (ws : List (K × V)) : Prop := ∀ k v v', (k, v) ∈ ws → (k, v') ∈ ws → v = v'

theorem lookup_writeAll_of_mem (m : Finmap fun _ : K => V) (ws : List (K × V)) (k : K) (v : V)
    (hf : Functional ws) (h : (k, v) ∈ ws) : (writeAll m ws).lookup k = some v := by
  induction ws generalizing m with
  | nil => cases h
  | cons w ws ih =>
    have hf' : Functional ws := fun k v v' h h' =>
      hf k v v' (List.mem_cons_of_mem _ h) (List.mem_cons_of_mem _ h')
    rw [writeAll_cons]
    by_cases hk : k ∈ ws.map Prod.fst
    · -- the last write of the key has the value as well
      obtain ⟨⟨k', v'⟩, hw, rfl⟩ := List.mem_map.mp hk
      have hv : v = v' := hf k' v v' h (List.mem_cons_of_mem _ hw)
      subst hv
      exact ih _ hf' hw
    · rcases List.mem_cons.mp h with rfl | h
      · rw [lookup_writeAll_of_notMem _ _ _ hk, Finmap.lookup_insert]
      · exact absurd (List.mem_map_of_mem (f := Prod.fst) h) hk

/-- every value comes from a write or was there before -/
theorem lookup_writeAll_cases (m : Finmap fun _ : K => V) (ws : List (K × V)) (k : K) (v : V)
    (h : (writeAll m ws).lookup k = some v) : (k, v) ∈ ws ∨ m.lookup k = some v := by
  induction ws generalizing m with
  | nil => exact Or.inr h
  | cons w ws ih =>
    rcases ih _ h with h | h
    · exact Or.inl (List.mem_cons_of_mem _ h)
    · by_cases hk : k = w.1
      · rw [hk, Finmap.lookup_insert] at h
        exact Or.inl (by rw [hk, ← Option.some.inj h]; exact List.mem_cons_self)
      · rw [Finmap.lookup_insert_of_ne _ hk] at h
        exact Or.inr h

theorem writeAll_congr (m : Finmap fun _ : K => V) (ws ws' : List (K × V)) (hf : Functional ws)
    (h : ∀ w, w ∈ ws ↔ w ∈ ws') : writeAll m ws = writeAll m ws' := by
  have hf' : Functional ws' := fun k v v' hv hv' => hf k v v' ((h _).mpr hv) ((h _).mpr hv')
  refine Finmap.ext_lookup fun k => ?_
  by_cases hk : k ∈ ws.map Prod.fst
  · obtain ⟨⟨k', v⟩, hw, rfl⟩ := List.mem_map.mp hk
    rw [lookup_writeAll_of_mem m ws k' v hf hw, lookup_writeAll_of_mem m ws' k' v hf' ((h _).mp hw)]
  · have hk' : k ∉ ws'.map Prod.fst := by
      intro hk'
      obtain ⟨w, hw, rfl⟩ := List.mem_map.mp hk'
      exact hk (List.mem_map_of_mem ((h w).mpr hw))
    rw [lookup_writeAll_of_notMem m ws k hk, lookup_writeAll_of_notMem m ws' k hk']

/-! ## the last write of a key -/

section
variable {X : Type} (key : X → K) (val : X → V)

/-- no later element has the same key -/
def Last (xs : List X) (x : X) : Prop := ∃ l r, xs = l ++ x :: r ∧ key x ∉ r.map key

theorem last_concat (xs : List X) (x : X) : Last key (xs ++ [x]) x :=
  ⟨xs, [], rfl, List.not_mem_nil⟩

theorem Last.concat {xs : List X} {x y : X} (h : Last key xs x) (hne : key x ≠ key y) :
    Last key (xs ++ [y]) x := by
  obtain ⟨l, r, rfl, hr⟩ := h
  refine ⟨l, r ++ [y], by rw [List.append_assoc, List.cons_append], ?_⟩
  rw [List.map_append, List.mem_append, not_or]
  exact ⟨hr, fun hm => hne (List.mem_singleton.mp hm)⟩

theorem Last.mem {xs : List X} {x : X} (h : Last key xs x) : x ∈ xs := by
  obtain ⟨l, r, rfl, -⟩ := h
  exact List.mem_append_right l List.mem_cons_self

theorem lookup_last (m : Finmap fun _ : K => V) {xs : List X} {x : X} (h : Last key xs x) :
    (writeAll m (xs.map fun x => (key x, val x))).lookup (key x) = some (val x) := by
  obtain ⟨l, r, rfl, hr⟩ := h
  rw [List.map_append, List.map_cons, writeAll_append, writeAll_cons, lookup_writeAll_of_notMem,
    Finmap.lookup_insert]
  rw [List.map_map]
  exact hr

theorem Last.unique {xs : List X} {x y : X} (hx : Last key xs x) (hy : Last key xs y)
    (h : key x = key y) : x = y := by
  have hwx := lookup_last key id (∅ : Finmap fun _ : K => X) hx
  rw [h, lookup_last key id ∅ hy] at hwx
  exact (Option.some.inj hwx).symm

/-- every value was written by the last element of its key, or was there before -/
theorem lookup_last_cases (m : Finmap fun _ : K => V) (xs : List X) {k : K} {v : V}
    (h : (writeAll m (xs.map fun x => (key x, val x))).lookup k = some v) :
    (∃ x, Last key xs x ∧ key x = k ∧ val x = v) ∨ m.lookup k = some v := by
  induction xs using List.reverseRecOn with
  | nil => exact Or.inr h
  | append_singleton xs y ih =>
    rw [List.map_append, writeAll_append] at h
    replace h : ((writeAll m (xs.map fun x => (key x, val x))).insert (key y) (val y)).lookup k
        = some v := h
    by_cases hk : k = key y
    · rw [hk, Finmap.lookup_insert] at h
      exact Or.inl ⟨y, last_concat key xs y, hk.symm, Option.some.inj h⟩
    · rw [Finmap.lookup_insert_of_ne _ hk] at h
      obtain ⟨x, hx, hkx, hv⟩ | h := ih h
      · exact Or.inl ⟨x, hx.concat key (by rw [hkx]; exact hk), hkx, hv⟩
      · exact Or.inr h

end

/-! ## members in their order -/

/-- a member that is there keeps its place, and a new one is the last -/
def assign : List (K × V) → K → V → List (K × V)
  | [], k, v => [(k, v)]
  | w :: obj, k, v => if w.1 = k then (k, v) :: obj else w :: assign obj k v

def assignAll (obj : List (K × V)) (ws : List (K × V)) : List (K × V) :=
  ws.foldl (fun obj w => assign obj w.1 w.2) obj

theorem lookup_cons_ite [BEq K] [LawfulBEq K] (w : K × V) (obj : List (K × V)) (k : K) :
    (w :: obj).lookup k = if k = w.1 then some w.2 else obj.lookup k := by
  rw [List.lookup_cons]
  by_cases hk : k = w.1
  · rw [if_pos hk, beq_iff_eq.mpr hk]
  · rw [if_neg hk, beq_false_of_ne hk]

theorem lookup_assign [BEq K] [LawfulBEq K] (obj : List (K × V)) (k k' : K) (v : V) :
    (assign obj k v).lookup k' = if k' = k then some v else obj.lookup k' := by
  induction obj with
  | nil => exact lookup_cons_ite (k, v) [] k'
  | cons w obj ih =>
    unfold assign
    by_cases hw : w.1 = k
    · rw [if_pos hw, lookup_cons_ite, lookup_cons_ite, hw]
      by_cases hk : k' = k
      · rw [if_pos hk, if_pos hk]
      · rw [if_neg hk, if_neg hk, if_neg hk]
    · rw [if_neg hw, lookup_cons_ite, lookup_cons_ite, ih]
      by_cases hk : k' = w.1
      · rw [if_pos hk, if_pos hk, if_neg (hk ▸ hw)]
      · rw [if_neg hk, if_neg hk]

/-- the members are those of the map that is written instead -/
theorem lookup_assignAll [BEq K] [LawfulBEq K] {obj : List (K × V)} {m : Finmap fun _ : K => V}
    (h : ∀ k, obj.lookup k = m.lookup k) (ws : List (K × V)) (k : K) :
    (assignAll obj ws).lookup k = (writeAll m ws).lookup k := by
  induction ws generalizing obj m with
  | nil => exact h k
  | cons w ws ih =>
    rw [writeAll_cons]
    refine ih fun k => ?_
    rw [lookup_assign, h k]
    by_cases hk : k = w.1
    · rw [if_pos hk, hk, Finmap.lookup_insert]
    · rw [if_neg hk, Finmap.lookup_insert_of_ne _ hk]

theorem assign_of_notMem {obj : List (K × V)} {k : K} (h : k ∉ obj.map Prod.fst) (v : V) :
    assign obj k v = obj ++ [(k, v)] := by
  induction obj with
  | nil => rfl
  | cons w obj ih =>
    rw [List.map_cons, List.mem_cons, not_or] at h
    unfold assign
    rw [if_neg (Ne.symm h.1), ih h.2, List.cons_append]

/-- new members stand in the order of their writes -/
theorem assignAll_of_nodup {obj ws : List (K × V)} (h : ((obj ++ ws).map Prod.fst).Nodup) :
    assignAll obj ws = obj ++ ws := by
  induction ws generalizing obj with
  | nil => exact (List.append_nil obj).symm
  | cons w ws ih =>
    have hnew : w.1 ∉ obj.map Prod.fst := by
      rw [List.map_append, List.map_cons] at h
      exact fun hw => (List.disjoint_of_nodup_append h) hw List.mem_cons_self
    have hsplit : obj ++ w :: ws = (obj ++ [w]) ++ ws := by simp
    show assignAll (assign obj w.1 w.2) ws = _
    rw [assign_of_notMem hnew, hsplit]
    exact ih (hsplit ▸ h)

end

end Writes
