import Mathlib.Data.Finmap
import Mathlib.Data.List.Induction
import Mathlib.Data.List.Sort
import Mathlib.Tactic.Common

/-!
# Values collected under keys

A loop that appends the value of each element to the list under its key, and a sort by keys.

* `buckets`              the loop; `lookup_buckets`: a list has the values of its key in order;
* `Partitions`           every value is in one list, once;
* `buckets_partition`    the buckets of distinct values partition them;
* `sortByKey_perm`       elements with distinct keys are sorted in one way only.
-/

set_option linter.unusedVariables false

namespace Buckets

section
variable {X K V : Type} [DecidableEq K] (key : X → K) (val : X → V)

/-- one turn: the value goes to the end of the list under the key, which is empty at first -/
def collect (m : Finmap fun _ : K => List V) (x : X) : Finmap fun _ : K => List V :=
  m.insert (key x) ((m.lookup (key x)).getD [] ++ [val x])

def buckets (xs : List X) : Finmap fun _ : K => List V := xs.foldl (collect key val) ∅

theorem buckets_concat (xs : List X) (x : X) :
    buckets key val (xs ++ [x]) = collect key val (buckets key val xs) x := List.foldl_concat ..

theorem filter_concat (xs : List X) (x : X) (k : K) :
    ((xs ++ [x]).filter fun y => key y = k) =
      if key x = k then (xs.filter fun y => key y = k) ++ [x] else xs.filter fun y => key y = k := by
  rw [List.filter_append]
  by_cases h : key x = k
  · rw [List.filter_cons_of_pos (by simpa using h), List.filter_nil, if_pos h]
  · rw [List.filter_cons_of_neg (by simpa using h), List.filter_nil, List.append_nil, if_neg h]

theorem lookup_buckets (xs : List X) (k : K) : (buckets key val xs).lookup k =
    if (xs.filter fun x => key x = k) = [] then none
    else some ((xs.filter fun x => key x = k).map val) := by
  induction xs using List.reverseRecOn with
  | nil => rfl
  | append_singleton xs x ih =>
    rw [buckets_concat, filter_concat]
    unfold collect
    by_cases hk : key x = k
    · subst hk
      rw [Finmap.lookup_insert, ih, if_pos rfl, if_neg (List.append_ne_nil_of_right_ne_nil _
        (List.cons_ne_nil x [])), List.map_append]
      by_cases hnil : (xs.filter fun y => key y = key x) = []
      · rw [if_pos hnil, hnil]
        rfl
      · rw [if_neg hnil]
        rfl
    · rw [Finmap.lookup_insert_of_ne _ (Ne.symm hk), ih, if_neg hk]

/-- the list under a key has the values of the elements with the key -/
theorem lookup_buckets_some {xs : List X} {k : K} {l : List V}
    (h : (buckets key val xs).lookup k = some l) :
    l ≠ [] ∧ l = (xs.filter fun x => key x = k).map val := by
  rw [lookup_buckets] at h
  by_cases hnil : (xs.filter fun x => key x = k) = []
  · rw [if_pos hnil] at h
    cases h
  · rw [if_neg hnil] at h
    rw [← Option.some.inj h]
    exact ⟨fun hl => hnil (List.map_eq_nil_iff.mp hl), rfl⟩

/-- Every one of the values is in exactly one list, once, and nothing else is. -/
structure Partitions (m : Finmap fun _ : K => List V) (vs : List V) : Prop where
  nonempty : ∀ k l, m.lookup k = some l → l ≠ []
  nodup : ∀ k l, m.lookup k = some l → l.Nodup
  mem_iff : ∀ v, v ∈ vs ↔ ∃ k l, m.lookup k = some l ∧ v ∈ l
  disjoint : ∀ v k k' l l', m.lookup k = some l → m.lookup k' = some l' → v ∈ l → v ∈ l' → k = k'

theorem mem_buckets {xs : List X} {x : X} (h : x ∈ xs) :
    ∃ l, (buckets key val xs).lookup (key x) = some l ∧ val x ∈ l := by
  have hmem : x ∈ xs.filter fun y => key y = key x := List.mem_filter.mpr ⟨h, decide_eq_true rfl⟩
  refine ⟨(xs.filter fun y => key y = key x).map val, ?_, List.mem_map_of_mem hmem⟩
  rw [lookup_buckets, if_neg (List.ne_nil_of_mem hmem)]

/-- a value in the list under a key is that of an element with the key -/
theorem of_mem_buckets {xs : List X} {k : K} {l : List V} {v : V}
    (h : (buckets key val xs).lookup k = some l) (hv : v ∈ l) : ∃ x ∈ xs, key x = k ∧ val x = v := by
  rw [(lookup_buckets_some key val h).2] at hv
  obtain ⟨x, hx, rfl⟩ := List.mem_map.mp hv
  obtain ⟨hx, hk⟩ := List.mem_filter.mp hx
  exact ⟨x, hx, of_decide_eq_true hk, rfl⟩

theorem buckets_partition {xs : List X} (hnd : (xs.map val).Nodup) :
    Partitions (buckets key val xs) (xs.map val) where
  nonempty k l h := (lookup_buckets_some key val h).1
  nodup k l h := by
    rw [(lookup_buckets_some key val h).2]
    exact (List.filter_sublist.map val).nodup hnd
  mem_iff v := by
    constructor
    · intro hv
      obtain ⟨x, hx, rfl⟩ := List.mem_map.mp hv
      obtain ⟨l, hl, hv⟩ := mem_buckets key val hx
      exact ⟨key x, l, hl, hv⟩
    · rintro ⟨k, l, hl, hv⟩
      obtain ⟨x, hx, -, rfl⟩ := of_mem_buckets key val hl hv
      exact List.mem_map_of_mem hx
  disjoint v k k' l l' hl hl' hv hv' := by
    obtain ⟨x, hx, rfl, rfl⟩ := of_mem_buckets key val hl hv
    obtain ⟨y, hy, rfl, he⟩ := of_mem_buckets key val hl' hv'
    rw [List.inj_on_of_nodup_map hnd hy hx he]

end

section
variable {X K : Type} [LinearOrder K] (key : X → K)

/-- a stable sort by a key -/
def sortByKey (xs : List X) : List X := xs.insertionSort fun a b => key a ≤ key b

theorem sortByKey_perm_self (xs : List X) : (sortByKey key xs).Perm xs := List.perm_insertionSort _ xs

theorem sortByKey_sorted (xs : List X) : (sortByKey key xs).Pairwise fun a b => key a ≤ key b := by
  have htotal : Std.Total fun a b : X => key a ≤ key b := ⟨fun a b => le_total _ _⟩
  have htrans : IsTrans X fun a b => key a ≤ key b := ⟨fun a b c => le_trans⟩
  exact List.pairwise_insertionSort _ xs

theorem sortByKey_strict {xs : List X} (hnd : (xs.map key).Nodup) :
    (sortByKey key xs).Pairwise fun a b => key a < key b := by
  have hkeys : (sortByKey key xs).Pairwise fun a b => key a ≠ key b :=
    List.pairwise_map.mp (((sortByKey_perm_self key xs).map key).nodup_iff.mpr hnd)
  exact ((sortByKey_sorted key xs).and hkeys).imp fun h => lt_of_le_of_ne h.1 h.2

theorem sortByKey_perm {xs ys : List X} (h : xs.Perm ys) (hnd : (xs.map key).Nodup) :
    sortByKey key xs = sortByKey key ys := by
  have hx := sortByKey_perm_self key xs
  have hy := sortByKey_perm_self key ys
  refine List.Perm.eq_of_pairwise (fun a b ha hb hab hba => ?_) (sortByKey_sorted key xs)
    (sortByKey_sorted key ys) (hx.trans (h.trans hy.symm))
  exact List.inj_on_of_nodup_map hnd (hx.mem_iff.mp ha) (h.mem_iff.mpr (hy.mem_iff.mp hb))
    (le_antisymm hab hba)

end

end Buckets
